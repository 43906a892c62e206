import Mathlib.Data.Fintype.Card
import Vantablack.Abos.Network

/-!
Whom a bundle gets to. A node sends on the first copy with a hop left that it gets, however many more
hops a later one has: where such a copy comes to each, everyone within the time-to-live gets the bundle.
-/

namespace Vantablack.Abos

open Lib List Message

/-- The nodes at a distance of at most `d` from the source. -/
def Network.Within {ι : Type*} (net : Network ι) (source : ι) : ℕ → ι → Prop
  | 0, v => v = source
  | d + 1, v => net.Within source d v ∨ ∃ u, net.Within source d u ∧ net.Link u v

variable {ι : Type*} [DecidableEq ι] {net : Network ι} {source : ι} {id : BundleId} {s s' : State ι}

/-- The node has been handed a copy whose message is as `p` says. -/
def Had (s : State ι) (v : ι) (p : Message ι → Bool) : Prop := 0 < copies v p s.handed
  deriving Decidable

/-- A copy of the bundle that has a hop left. -/
def Message.isLive {ι : Type*} (id : BundleId) (ttl : ℕ) : Message ι → Bool
  | .beacon _ => false
  | .bundle b => b.bundleId = id && b.hopCount < ttl

/-- The states of a run without an end. -/
def states (net : Network ι) (events : ℕ → Event ι) : ℕ → State ι :=
  trace (step net) .initial events

/-- A run in which the source transmits the bundle, nobody else has a bundle of that id, and no copy
is lost, however late it comes. -/
structure Lossless (net : Network ι) (events : ℕ → Event ι) (source : ι) (bundle : Bundle ι) :
    Prop where
  transmitted : ∃ n now, events n = .transmit source bundle now
  own : ∀ n v b, (v, .bundle b) ∈ (states net events n).emitted → b.bundleId = bundle.bundleId →
    v = source ∧ b.ttl = bundle.ttl
  delivered : ∀ n, ∀ copy ∈ (states net events n).inFlight, ∃ m, n ≤ m ∧ ∃ i now,
    events m = .deliver i now ∧ (states net events m).inFlight[i]? = some copy

/-- A node that gets the bundle, and is nearer to the source than the time-to-live, gets a copy that
has a hop left. -/
def Timely (net : Network ι) (events : ℕ → Event ι) (source : ι) (bundle : Bundle ι) : Prop :=
  ∀ v ≠ source, (∃ d < bundle.ttl, net.Within source d v) →
    (∃ n, Had (states net events n) v (isBundle bundle.bundleId)) →
      ∃ n, Had (states net events n) v (isLive bundle.bundleId bundle.ttl)

/-! ### What nodes know of a bundle -/

omit [DecidableEq ι] in
theorem isLive_iff {msg : Message ι} {ttl : ℕ} :
    msg.isLive id ttl = true ↔ ∃ b, msg = .bundle b ∧ b.bundleId = id ∧ b.hopCount < ttl := by
  cases msg with
  | beacon b => simp [isLive]
  | bundle b => simp [isLive]

variable {v : ι}

theorem Had.hand {p : Message ι → Bool} (h : Had s v p) (i : ℕ) (copy : Copy ι) :
    Had (s.hand i copy) v p := by
  unfold Had State.hand
  rw [copies_cons]
  exact Nat.add_pos_left h _

theorem had_hand_self (s : State ι) (i : ℕ) (v : ι) {p : Message ι → Bool} {msg : Message ι}
    (hp : p msg = true) : Had (s.hand i (v, msg)) v p := by
  unfold Had State.hand
  rw [copies_cons, if_pos (Bool.and_eq_true_iff.mpr ⟨decide_eq_true rfl, hp⟩)]
  exact Nat.succ_pos _

/-- The node has transmitted the bundle or sent it on. -/
def Knows (m : MeshNode ι) (id : BundleId) : Prop := id ∈ m.originBundles ∨ id ∈ m.forwarded

variable {m : MeshNode ι}

omit [DecidableEq ι] in
theorem Knows.of_same {m' : MeshNode ι} (hm : MeshNode.SameMesh m m') (h : Knows m' id) :
    Knows m id := by
  unfold Knows at h ⊢
  rwa [hm.originBundles, hm.forwarded] at h

theorem knows_setNode {w : ι} (h : Knows ((s.setNode v m).node w) id) :
    (w = v ∧ Knows m id) ∨ Knows (s.node w) id := by
  rw [State.setNode_apply] at h
  by_cases hw : w = v
  · rw [if_pos hw] at h
    exact Or.inl ⟨hw, h⟩
  · rw [if_neg hw] at h
    exact Or.inr h

/-- The copies are the source's, and a node that has sent the bundle on has been handed a copy that
could go on. -/
structure Carried (source : ι) (id : BundleId) (ttl : ℕ) (s : State ι) : Prop where
  localId : ∀ v, (s.node v).localId = v
  sourced : ∀ v b, (v, .bundle b) ∈ s.inFlight → b.bundleId = id →
    b.sourceNode = source ∧ b.ttl = ttl
  known : ∀ v ≠ source, Knows (s.node v) id → Had s v (isLive id ttl)

theorem carried_initial (source : ι) (id : BundleId) (ttl : ℕ) :
    Carried source id ttl (.initial : State ι) where
  localId := fun _ => rfl
  sourced := fun _ _ hb => absurd hb not_mem_nil
  known := by
    rintro v - (horigin | hforwarded)
    · exact absurd horigin (AList.notMem_empty id)
    · exact absurd hforwarded (Finset.notMem_empty id)

variable {ttl : ℕ}

theorem Carried.sourced_effect (h : Carried source id ttl s) (heffect : Effect net s s')
    (hown : ∀ v b, (v, .bundle b) ∈ s'.emitted → b.bundleId = id → v = source ∧ b.ttl = ttl) :
    ∀ v b, (v, .bundle b) ∈ s'.inFlight → b.bundleId = id → b.sourceNode = source ∧ b.ttl = ttl := by
  intro w b hb hid
  cases heffect with
  | quiet v m _ => exact h.sourced w b hb hid
  | emitBeacon v now nodeAlias _ =>
      rcases mem_flood hb with hold | ⟨hnew, -⟩
      · exact h.sourced w b hold hid
      · cases hnew
  | transmit v bundle now =>
      rcases mem_flood hb with hold | ⟨hnew, -⟩
      · exact h.sourced w b hold hid
      · cases hnew
        exact hown v _ mem_cons_self hid
  | dropBeacon i v b' m _ _ _ => exact h.sourced w b (mem_of_mem_eraseIdx hb) hid
  | relayBeacon i v b' m _ _ _ _ =>
      rcases mem_flood hb with hold | ⟨hnew, -⟩
      · exact h.sourced w b (mem_of_mem_eraseIdx hold) hid
      · cases hnew
  | dropBundle i v b' _ _ => exact h.sourced w b (mem_of_mem_eraseIdx hb) hid
  | relayBundle i v b' now hcopy _ =>
      rcases mem_flood hb with hold | ⟨hnew, -⟩
      · exact h.sourced w b (mem_of_mem_eraseIdx hold) hid
      · cases hnew
        exact h.sourced v b' (mem_of_getElem? hcopy) hid

theorem Carried.known_effect (h : Carried source id ttl s) (heffect : Effect net s s')
    (hown : ∀ v b, (v, .bundle b) ∈ s'.emitted → b.bundleId = id → v = source ∧ b.ttl = ttl) :
    ∀ v ≠ source, Knows (s'.node v) id → Had s' v (isLive id ttl) := by
  intro w hw hknows
  cases heffect with
  | quiet v m hm =>
      rcases knows_setNode hknows with ⟨rfl, hnew⟩ | hold
      · exact h.known w hw (hnew.of_same hm)
      · exact h.known w hw hold
  | emitBeacon v now nodeAlias _ =>
      rcases knows_setNode hknows with ⟨rfl, hnew⟩ | hold
      · exact h.known w hw hnew
      · exact h.known w hw hold
  | transmit v bundle now =>
      rcases knows_setNode hknows with ⟨rfl, horigin | hforwarded⟩ | hold
      · rcases (MeshNode.mem_originBundles_trackBundleAt ..).mp horigin with hid | horigin
        · exact absurd (hown w _ mem_cons_self hid.symm).1 hw
        · exact h.known w hw (Or.inl horigin)
      · rw [(MeshNode.trackBundleAt_frame ..).2.2.2] at hforwarded
        exact h.known w hw (Or.inr hforwarded)
      · exact h.known w hw hold
  | dropBeacon i v b m _ hm _ =>
      rcases knows_setNode (s := s.hand i _) hknows with ⟨rfl, hnew⟩ | hold
      · exact (h.known w hw (hnew.of_same hm)).hand i _
      · exact (h.known w hw hold).hand i _
  | relayBeacon i v b m _ hm _ _ =>
      rcases knows_setNode (s := s.hand i _) hknows with ⟨rfl, hnew⟩ | hold
      · exact (h.known w hw (hnew.of_same hm)).hand i _
      · exact (h.known w hw hold).hand i _
  | dropBundle i v b _ _ => exact (h.known w hw hknows).hand i _
  | relayBundle i v b now hcopy hgo =>
      have hnew : id = b.bundleId → Had (s.hand i (v, .bundle b)) v (isLive id ttl) := by
        intro hid
        have httl := (h.sourced v b (mem_of_getElem? hcopy) hid.symm).2
        exact had_hand_self s i v (isLive_iff.mpr ⟨b, rfl, hid.symm, httl ▸ hgo.hops⟩)
      rcases knows_setNode (s := s.hand i _) hknows with ⟨rfl, horigin | hforwarded⟩ | hold
      · rcases (MeshNode.mem_originBundles_trackBundleAt ..).mp horigin with hid | horigin
        · exact hnew hid
        · exact (h.known w hw (Or.inl horigin)).hand i _
      · rw [(MeshNode.trackBundleAt_frame ..).2.2.2] at hforwarded
        rcases Finset.mem_insert.mp hforwarded with hid | hforwarded
        · exact hnew hid
        · exact (h.known w hw (Or.inr hforwarded)).hand i _
      · exact (h.known w hw hold).hand i _

theorem Carried.effect (h : Carried source id ttl s) (heffect : Effect net s s')
    (hown : ∀ v b, (v, .bundle b) ∈ s'.emitted → b.bundleId = id → v = source ∧ b.ttl = ttl) :
    Carried source id ttl s' where
  localId := fun v => (heffect.node v).1.trans (h.localId v)
  sourced := h.sourced_effect heffect hown
  known := h.known_effect heffect hown

theorem mem_handed_deliver (net : Network ι) {i : ℕ} {copy : Copy ι} (h : s.inFlight[i]? = some copy)
    (now : ℕ) : copy ∈ (s.deliver net i now).handed := by
  obtain ⟨v, msg⟩ := copy
  unfold State.deliver
  rw [h]
  dsimp only
  cases (onMessage (s.node v) now msg).1 with
  | none => exact mem_cons_self
  | some out => exact mem_cons_self

theorem Effect.first_live (heffect : Effect net s s') (hnot : ¬ Had s v (isLive id ttl))
    (hlive : Had s' v (isLive id ttl)) :
    ∃ b, (v, .bundle b) ∈ s.inFlight ∧ b.bundleId = id ∧ b.hopCount < ttl ∧
      (MeshNode.Forwards (s.node v) b → (v, .bundle b.incrementHop) ∈ s'.relayed) := by
  have hnew : ∀ i copy, Had (s.hand i copy) v (isLive id ttl) →
      copy.1 = v ∧ copy.2.isLive id ttl = true := by
    intro i copy h
    unfold Had State.hand at h
    rw [copies_cons] at h
    by_cases hp : (copy.1 = v && copy.2.isLive id ttl) = true
    · simpa using hp
    · rw [if_neg hp] at h
      exact absurd h hnot
  cases heffect with
  | quiet w m _ => exact absurd hlive hnot
  | emitBeacon w now nodeAlias _ => exact absurd hlive hnot
  | transmit w bundle now => exact absurd hlive hnot
  | dropBeacon i w b m _ _ _ => cases (hnew i _ hlive).2
  | relayBeacon i w b m _ _ _ _ => cases (hnew i _ hlive).2
  | dropBundle i w b hcopy hstop =>
      obtain ⟨rfl, hmsg⟩ := hnew i _ hlive
      obtain ⟨_, heq, hid, hhops⟩ := isLive_iff.mp hmsg
      cases heq
      exact ⟨b, mem_of_getElem? hcopy, hid, hhops, fun hgo => absurd hgo hstop⟩
  | relayBundle i w b now hcopy _ =>
      obtain ⟨rfl, hmsg⟩ := hnew i _ hlive
      obtain ⟨_, heq, hid, hhops⟩ := isLive_iff.mp hmsg
      cases heq
      exact ⟨b, mem_of_getElem? hcopy, hid, hhops, fun _ => mem_cons_self⟩

/-! ### The run -/

section

variable {events : ℕ → Event ι} {bundle : Bundle ι}

theorem states_invariant (I : State ι → Prop) (hstart : I .initial)
    (hstep : ∀ s s', I s → Effect net s s' → I s') (n : ℕ) : I (states net events n) := by
  refine trace_invariant I (fun s e hs => ?_) hstart events n
  rcases effect_step net s e with heq | heffect
  · rwa [heq]
  · exact hstep s _ hs heffect

theorem Lossless.invariant (h : Lossless net events source bundle) (I : State ι → Prop)
    (hstart : I .initial)
    (hstep : ∀ s s', I s → Effect net s s' → (∀ v b, (v, .bundle b) ∈ s'.emitted →
      b.bundleId = bundle.bundleId → v = source ∧ b.ttl = bundle.ttl) → I s') (n : ℕ) :
    I (states net events n) := by
  induction n with
  | zero => exact hstart
  | succ n ih =>
      rcases effect_step net (states net events n) (events n) with heq | heffect
      · show I (step net (states net events n) (events n))
        rwa [heq]
      · exact hstep _ _ ih heffect (h.own (n + 1))

theorem Lossless.carried (h : Lossless net events source bundle) (n : ℕ) :
    Carried source bundle.bundleId bundle.ttl (states net events n) :=
  h.invariant (Carried source bundle.bundleId bundle.ttl) (carried_initial source _ _)
    (fun _ _ hs heffect hown => hs.effect heffect hown) n

theorem Lossless.received_of_sent (h : Lossless net events source bundle) {n : ℕ} {e : Copy ι}
    (he : e ∈ (states net events n).emitted ++ (states net events n).relayed)
    (hid : e.2.isBundle bundle.bundleId = true) {w : ι} (hlink : net.Link e.1 w) :
    ∃ m, Had (states net events m) w (isBundle bundle.bundleId) := by
  have hbalanced : Balanced net (states net events n) :=
    states_invariant (Balanced net) (balanced_initial net) (fun _ _ hs heffect => hs.effect heffect) n
  have hbalance := hbalanced w (isBundle bundle.bundleId)
  have hheard : 0 < heardBy net w (isBundle bundle.bundleId)
      ((states net events n).emitted ++ (states net events n).relayed) :=
    (heardBy_pos_iff ..).mpr ⟨e, he, hlink, hid⟩
  rw [heardBy_append, ← hbalance] at hheard
  by_cases hreceived : Had (states net events n) w (isBundle bundle.bundleId)
  · exact ⟨n, hreceived⟩
  -- otherwise a copy is in the air, and comes
  have hair : 0 < copies w (isBundle bundle.bundleId) (states net events n).inFlight := by
    unfold Had at hreceived
    omega
  obtain ⟨msg, hmem, hp⟩ := (copies_pos_iff ..).mp hair
  obtain ⟨m, -, i, now, hevent, hcopy⟩ := h.delivered n (w, msg) hmem
  refine ⟨m + 1, (copies_pos_iff ..).mpr ⟨msg, ?_, hp⟩⟩
  show (w, msg) ∈ (step net (states net events m) (events m)).handed
  rw [hevent]
  exact mem_handed_deliver net hcopy now

theorem Lossless.relayed_of_live (h : Lossless net events source bundle) {v : ι} (hv : v ≠ source)
    (hlive : ∃ n, Had (states net events n) v (isLive bundle.bundleId bundle.ttl)) :
    ∃ n, ∃ e ∈ (states net events n).relayed, e.1 = v ∧ e.2.isBundle bundle.bundleId = true := by
  -- the step at which the node gets the first such copy
  have hfirst : ∀ m < Nat.find hlive,
      ¬ Had (states net events m) v (isLive bundle.bundleId bundle.ttl) :=
    fun m => Nat.find_min hlive
  have hfound := Nat.find_spec hlive
  cases hn : Nat.find hlive with
  | zero =>
      rw [hn] at hfound
      exact absurd hfound (Nat.lt_irrefl 0)
  | succ k =>
      rw [hn] at hfound hfirst
      have hnot := hfirst k (Nat.lt_succ_self k)
      have hcarried := h.carried k
      rcases effect_step net (states net events k) (events k) with heq | heffect
      · have hsame : states net events (k + 1) = states net events k := heq
        exact absurd (hsame ▸ hfound) hnot
      obtain ⟨b, hair, hid, hhops, hsend⟩ := heffect.first_live hnot hfound
      obtain ⟨hsource, httl⟩ := hcarried.sourced v b hair hid
      have hgo : MeshNode.Forwards ((states net events k).node v) b := by
        refine ⟨?_, fun horigin => ?_, httl.symm ▸ hhops, fun hforwarded => ?_⟩
        · rw [hsource, hcarried.localId]
          exact hv.symm
        · exact hnot (hcarried.known v hv (Or.inl (hid ▸ horigin)))
        · exact hnot (hcarried.known v hv (Or.inr (hid ▸ hforwarded)))
      exact ⟨k + 1, _, hsend hgo, rfl, isBundle_iff.mpr ⟨b.incrementHop, rfl, hid⟩⟩

/-- In whatever order copies come, if those nearer than the time-to-live that get the bundle get a copy
with a hop left, everyone within the time-to-live gets the bundle. -/
theorem received_of_timely (h : Lossless net events source bundle)
    (htimely : Timely net events source bundle) {v : ι} (hv : net.Within source bundle.ttl v) :
    v = source ∨ ∃ n, Had (states net events n) v (isBundle bundle.bundleId) := by
  have hall : ∀ d ≤ bundle.ttl, ∀ v, net.Within source d v →
      v = source ∨ ∃ n, Had (states net events n) v (isBundle bundle.bundleId) := by
    intro d
    induction d with
    | zero => exact fun _ v hv => Or.inl hv
    | succ d ih =>
        rintro hd v (hv | ⟨u, hu, hlink⟩)
        · exact ih (Nat.le_of_succ_le hd) v hv
        right
        by_cases hsource : u = source
        · subst hsource
          obtain ⟨n, now, hevent⟩ := h.transmitted
          have hmem : (u, Message.bundle (bundle.ofSource u)) ∈
              (states net events (n + 1)).emitted := by
            show _ ∈ (step net (states net events n) (events n)).emitted
            rw [hevent]
            exact mem_cons_self
          exact h.received_of_sent (mem_append_left _ hmem)
            (isBundle_iff.mpr ⟨bundle.ofSource u, rfl, rfl⟩) hlink
        · have hreceived := (ih (Nat.le_of_succ_le hd) u hu).resolve_left hsource
          obtain ⟨n, e, he, rfl, hid⟩ :=
            h.relayed_of_live hsource (htimely u hsource ⟨d, hd, hu⟩ hreceived)
          exact h.received_of_sent (mem_append_right _ he) hid hlink
  exact hall bundle.ttl (le_refl _) v hv

end

/-! ### Where the order does not matter -/

/-- The nodes of a way from the source, the last one first. -/
def Network.IsPath {ι : Type*} (net : Network ι) (source : ι) : List ι → Prop
  | [] => False
  | [v] => v = source
  | v :: u :: rest => net.Link u v ∧ net.IsPath source (u :: rest)

/-- A copy has come by different nodes, which have sent it on. -/
structure Trail (net : Network ι) (source : ι) (id : BundleId) (s : State ι) (v : ι) (b : Bundle ι)
    (p : List ι) : Prop where
  path : net.IsPath source (v :: p)
  nodup : p.Nodup
  length : p.length = b.hopCount + 1
  known : ∀ u ∈ p, u = source ∨ Knows (s.node u) id

/-- All copies, in the air and handed over. -/
def Trailed (net : Network ι) (source : ι) (id : BundleId) (s : State ι) : Prop :=
  ∀ v b, (v, .bundle b) ∈ s.inFlight ++ s.handed → b.bundleId = id → ∃ p, Trail net source id s v b p

theorem knows_of_setNode {w : ι} (hm : Knows (s.node v) id → Knows m id) (h : Knows (s.node w) id) :
    Knows ((s.setNode v m).node w) id := by
  rw [State.setNode_apply]
  by_cases hw : w = v
  · subst hw
    rw [if_pos rfl]
    exact hm h
  · rw [if_neg hw]
    exact h

omit [DecidableEq ι] in
theorem knows_trackBundleAt (b : Bundle ι) (now : ℕ) (h : Knows m id) :
    Knows (m.trackBundleAt b now) id := by
  rcases h with horigin | hforwarded
  · exact Or.inl ((MeshNode.mem_originBundles_trackBundleAt ..).mpr (Or.inr horigin))
  · right
    rwa [(MeshNode.trackBundleAt_frame ..).2.2.2]

theorem Effect.knows (heffect : Effect net s s') {w : ι} (h : Knows (s.node w) id) :
    Knows (s'.node w) id := by
  have hsame : ∀ {m m' : MeshNode ι}, MeshNode.SameMesh m m' → Knows m id → Knows m' id := by
    intro m m' hm hk
    unfold Knows at hk ⊢
    rwa [hm.originBundles, hm.forwarded]
  cases heffect with
  | quiet v m hm => exact knows_of_setNode (hsame hm) h
  | emitBeacon v now nodeAlias _ => exact knows_of_setNode (s := s) (fun hk => hk) h
  | transmit v bundle now => exact knows_of_setNode (s := s) (knows_trackBundleAt _ now) h
  | dropBeacon i v b m _ hm _ => exact knows_of_setNode (s := s.hand i _) (hsame hm) h
  | relayBeacon i v b m _ hm _ _ => exact knows_of_setNode (s := s.hand i _) (hsame hm) h
  | dropBundle i v b _ _ => exact h
  | relayBundle i v b now _ _ =>
      refine knows_of_setNode (s := s.hand i _) (fun hk => knows_trackBundleAt _ now ?_) h
      exact hk.imp_right fun hf => Finset.mem_insert_of_mem hf

theorem Trail.effect (heffect : Effect net s s') {b : Bundle ι} {p : List ι}
    (h : Trail net source id s v b p) : Trail net source id s' v b p :=
  { h with known := fun u hu => (h.known u hu).imp_right heffect.knows }

omit [DecidableEq ι] in
theorem mem_hand {i : ℕ} {copy e : Copy ι} (hcopy : s.inFlight[i]? = some copy)
    (h : e ∈ (s.hand i copy).inFlight ++ (s.hand i copy).handed) : e ∈ s.inFlight ++ s.handed := by
  rcases mem_append.mp h with hair | hhanded
  · exact mem_append_left _ (mem_of_mem_eraseIdx hair)
  · rcases mem_cons.mp hhanded with rfl | hhanded
    · exact mem_append_left _ (mem_of_getElem? hcopy)
    · exact mem_append_right _ hhanded

omit [DecidableEq ι] in
theorem mem_flood_append {msg : Message ι} {l : List (Copy ι)} {e : Copy ι}
    (h : e ∈ (s.flood net v msg).inFlight ++ l) :
    e ∈ s.inFlight ++ l ∨ (e.2 = msg ∧ net.Link v e.1) := by
  rcases mem_append.mp h with hair | hl
  · exact (mem_flood hair).imp_left (mem_append_left _)
  · exact Or.inl (mem_append_right _ hl)

omit [DecidableEq ι] in
theorem Trail.notMem {b : Bundle ι} {p : List ι} (h : Trail net source id s v b p)
    (hid : b.bundleId = id) (hsource : b.sourceNode = source) (hlocal : (s.node v).localId = v)
    (hgo : MeshNode.Forwards (s.node v) b) : v ∉ p := by
  intro hmem
  rcases h.known v hmem with hown | horigin | hforwarded
  · refine hgo.source ?_
    rw [hsource, hlocal, hown]
  · exact hgo.origin (hid ▸ horigin)
  · exact hgo.first (hid ▸ hforwarded)

theorem Trailed.effect (h : Trailed net source id s) (hcarried : Carried source id ttl s)
    (heffect : Effect net s s')
    (hown : ∀ v b, (v, .bundle b) ∈ s'.emitted → b.bundleId = id → v = source ∧ b.ttl = ttl) :
    Trailed net source id s' := by
  intro w b hb hid
  have hold : (w, Message.bundle b) ∈ s.inFlight ++ s.handed →
      ∃ p, Trail net source id s' w b p := by
    intro hmem
    obtain ⟨p, hp⟩ := h w b hmem hid
    exact ⟨p, hp.effect heffect⟩
  have heffect' := heffect
  cases heffect with
  | quiet v m _ => exact hold hb
  | emitBeacon v now nodeAlias _ =>
      rcases mem_flood_append hb with hb | ⟨hnew, -⟩
      · exact hold hb
      · cases hnew
  | transmit v bundle now =>
      rcases mem_flood_append hb with hb | ⟨hnew, hlink⟩
      · exact hold hb
      · cases hnew
        have hv : v = source := (hown v _ mem_cons_self hid).1
        refine ⟨[v], ⟨hlink, hv⟩, nodup_singleton v, rfl, fun u hu => Or.inl ?_⟩
        rw [mem_singleton.mp hu]
        exact hv
  | dropBeacon i v b' m hcopy _ _ => exact hold (mem_hand hcopy hb)
  | relayBeacon i v b' m hcopy _ _ _ =>
      rcases mem_flood_append hb with hb | ⟨hnew, -⟩
      · exact hold (mem_hand hcopy hb)
      · cases hnew
  | dropBundle i v b' hcopy _ => exact hold (mem_hand hcopy hb)
  | relayBundle i v b' now hcopy hgo =>
      rcases mem_flood_append hb with hb | ⟨hnew, hlink⟩
      · exact hold (mem_hand hcopy hb)
      · cases hnew
        have hair := mem_of_getElem? hcopy
        obtain ⟨p, hp⟩ := h v b' (mem_append_left _ hair) hid
        -- the node had not sent the bundle on, so that the way is not a round trip
        have hfresh := hp.notMem hid (hcarried.sourced v b' hair hid).1 (hcarried.localId v) hgo
        refine ⟨v :: p, ⟨hlink, hp.path⟩, nodup_cons.mpr ⟨hfresh, hp.nodup⟩, ?_, ?_⟩
        · rw [length_cons, hp.length]
          rfl
        · intro u hu
          rcases mem_cons.mp hu with rfl | hu
          · right
            show Knows ((s.setNode u _).node u) id
            rw [State.setNode_apply, if_pos rfl]
            refine knows_trackBundleAt _ now (Or.inr ?_)
            exact Finset.mem_insert.mpr (Or.inl hid.symm)
          · exact (hp.known u hu).imp_right heffect'.knows

section

variable {events : ℕ → Event ι} {bundle : Bundle ι}

theorem Lossless.trailed (h : Lossless net events source bundle) (n : ℕ) :
    Trailed net source bundle.bundleId (states net events n) := by
  have hboth : Carried source bundle.bundleId bundle.ttl (states net events n) ∧
      Trailed net source bundle.bundleId (states net events n) := by
    refine h.invariant (fun s => Carried source bundle.bundleId bundle.ttl s ∧
      Trailed net source bundle.bundleId s)
      ⟨carried_initial source _ _, fun _ _ hb => absurd hb not_mem_nil⟩ ?_ n
    rintro s s' ⟨hcarried, htrailed⟩ heffect hown
    exact ⟨hcarried.effect heffect hown, htrailed.effect hcarried heffect hown⟩
  exact hboth.2

/-- Where no way to a node near the source that takes each node once is longer than the time-to-live,
copies come in time in every order. -/
theorem Lossless.timely_of_short (h : Lossless net events source bundle)
    (hshort : ∀ v p, (∃ d < bundle.ttl, net.Within source d v) → net.IsPath source (v :: p) →
      (v :: p).Nodup → p.length ≤ bundle.ttl) : Timely net events source bundle := by
  rintro v hv hnear ⟨n, hhad⟩
  obtain ⟨msg, hmem, hmsg⟩ := (copies_pos_iff ..).mp hhad
  obtain ⟨b, rfl, hid⟩ := isBundle_iff.mp hmsg
  obtain ⟨p, hpath⟩ := h.trailed n v b (mem_append_right _ hmem) hid
  refine ⟨n, ?_⟩
  by_cases hmem' : v ∈ p
  · exact (h.carried n).known v hv ((hpath.known v hmem').resolve_left hv)
  · have hlength := hshort v p hnear hpath.path (nodup_cons.mpr ⟨hmem', hpath.nodup⟩)
    rw [hpath.length] at hlength
    exact (copies_pos_iff ..).mpr ⟨_, hmem, isLive_iff.mpr ⟨b, rfl, hid, hlength⟩⟩

theorem Lossless.timely_of_card [Fintype ι] (h : Lossless net events source bundle)
    (hcard : Fintype.card ι ≤ bundle.ttl + 1) : Timely net events source bundle := by
  refine h.timely_of_short fun v p _ _ hnodup => ?_
  have hlength := (Nodup.length_le_card hnodup).trans hcard
  rw [length_cons] at hlength
  exact Nat.le_of_succ_le_succ hlength

end

/-! ### Runs that come to an end -/

/-- A run that goes through a list of events, and is idle after that. -/
def script (idle : ι) (events : List (Event ι)) (n : ℕ) : Event ι :=
  events.getD n (.expirePeers idle 0)

theorem mem_inFlight_step (net : Network ι) {copy : Copy ι} (h : copy ∈ s.inFlight) (e : Event ι) :
    copy ∈ (step net s e).inFlight ∨
      ∃ i now, e = .deliver i now ∧ s.inFlight[i]? = some copy := by
  cases e with
  | emitBeacon v now nodeAlias =>
      left
      unfold step
      dsimp only
      cases ABOSSystem.maybeEmitBeacon (s.node v) now nodeAlias with
      | none => exact h
      | some out => exact mem_append_left _ h
  | transmit v bundle now => exact Or.inl (mem_append_left _ h)
  | expirePeers v now => exact Or.inl h
  | deliver i now =>
      cases hcopy : s.inFlight[i]? with
      | none =>
          left
          rw [step, State.deliver, hcopy]
          exact h
      | some other =>
          by_cases hsame : other = copy
          · exact Or.inr ⟨i, now, rfl, hcopy.trans (congrArg some hsame)⟩
          left
          obtain ⟨k, hk⟩ := mem_iff_getElem?.mp h
          have hrest : copy ∈ s.inFlight.eraseIdx i := by
            refine mem_eraseIdx_iff_getElem?.mpr ⟨k, ?_, hk⟩
            rintro rfl
            rw [hcopy] at hk
            exact hsame (Option.some.inj hk)
          obtain ⟨v, msg⟩ := other
          rw [step, State.deliver, hcopy]
          dsimp only
          cases (onMessage (s.node v) now msg).1 with
          | none => exact hrest
          | some out => exact mem_append_left _ hrest

section

variable {idle : ι} {events : List (Event ι)}

theorem states_script {n : ℕ} (hn : events.length ≤ n) :
    (states net (script idle events) n).inFlight =
        (states net (script idle events) events.length).inFlight ∧
      (states net (script idle events) n).emitted =
        (states net (script idle events) events.length).emitted ∧
      (states net (script idle events) n).handed =
        (states net (script idle events) events.length).handed := by
  induction n, hn using Nat.le_induction with
  | base => exact ⟨rfl, rfl, rfl⟩
  | succ n hn ih =>
      have hidle : script idle events n = .expirePeers idle 0 := by
        rw [script, getD_eq_getElem?_getD, getElem?_eq_none hn]
        rfl
      have hnext : states net (script idle events) (n + 1) =
          step net (states net (script idle events) n) (.expirePeers idle 0) := by
        rw [← hidle]
        rfl
      rw [hnext]
      exact ih

theorem lossless_script {source : ι} {bundle : Bundle ι} {now : ℕ} {rest : List (Event ι)}
    (hevents : events = .transmit source bundle now :: rest)
    (hown : ∀ n < events.length + 1, ∀ e ∈ (states net (script idle events) n).emitted,
      e = (source, .bundle (bundle.ofSource source)))
    (hend : (states net (script idle events) events.length).inFlight = []) :
    Lossless net (script idle events) source bundle where
  transmitted := ⟨0, now, by rw [hevents]; rfl⟩
  own := by
    intro n v b hb hid
    have hmem : (v, Message.bundle b) ∈
        (states net (script idle events) (min n events.length)).emitted := by
      rcases Nat.le_total n events.length with hle | hle
      · rwa [min_eq_left hle]
      · rw [min_eq_right hle, ← (states_script hle).2.1]
        exact hb
    cases hown _ (Nat.lt_succ_of_le (min_le_right _ _)) _ hmem
    exact ⟨rfl, rfl⟩
  delivered := by
    intro n copy hcopy
    by_contra hlost
    -- a copy that is never delivered is in the air at the end
    have hstays : ∀ m, n ≤ m → copy ∈ (states net (script idle events) m).inFlight := by
      intro m hm
      induction m, hm using Nat.le_induction with
      | base => exact hcopy
      | succ m hm ih =>
          rcases mem_inFlight_step net ih (script idle events m) with hair | ⟨i, now, hevent, hi⟩
          · exact hair
          · exact absurd ⟨m, hm, i, now, hevent, hi⟩ hlost
    have hmem := hstays _ (le_max_left n events.length)
    rw [(states_script (le_max_right n events.length)).1, hend] at hmem
    cases hmem

end

/-- Six nodes; from the first one the fourth is a neighbour, and the end of a way of three links. -/
def detour : Network (Fin 6) where
  neighbours := fun v => [[1, 3], [0, 2], [1, 3], [0, 2, 4], [3, 5], [4]].getD v.val []
  nodup := by decide

def shortBundle : Bundle (Fin 6) where
  bundleId := List.Vector.replicate 32 0
  sourceNode := 0
  creationTimestamp := 0
  lifetimeSeconds := 3
  payload := []
  hopCount := 0
  ttl := 3

/-- The copy that goes round comes to the fourth node first. -/
def detourEvents : List (Event (Fin 6)) :=
  [.transmit 0 shortBundle 0, .deliver 0 0, .deliver 2 0, .deliver 3 0, .deliver 5 0, .deliver 0 0,
    .deliver 0 0, .deliver 0 0, .deliver 0 0, .deliver 0 0]

/-- The last node is three links away and has a bundle of three hops not handed to it, as the fourth
one spends its only rebroadcast on the copy that went round. -/
theorem detour_not_received :
    ¬ ∀ events, Lossless detour events 0 shortBundle → ∀ v, detour.Within 0 shortBundle.ttl v →
      v = 0 ∨ ∃ n, Had (states detour events n) v (isBundle shortBundle.bundleId) := by
  intro h
  have hlossless : Lossless detour (script 0 detourEvents) 0 shortBundle :=
    lossless_script rfl (by decide +kernel) (by decide +kernel)
  have hwithin : detour.Within 0 shortBundle.ttl 5 := by
    refine Or.inr ⟨4, Or.inr ⟨3, Or.inr ⟨0, rfl, ?_⟩, ?_⟩, ?_⟩ <;> decide
  have hnever : ∀ n < detourEvents.length + 1,
      ¬ Had (states detour (script 0 detourEvents) n) 5 (isBundle shortBundle.bundleId) := by
    decide +kernel
  rcases h _ hlossless 5 hwithin with hsource | ⟨n, hhad⟩
  · exact absurd hsource (by decide)
  · rcases Nat.le_total n detourEvents.length with hle | hle
    · exact hnever n (Nat.lt_succ_of_le hle) hhad
    · refine hnever detourEvents.length (Nat.lt_succ_self _) ?_
      unfold Had at hhad ⊢
      rwa [← (states_script hle).2.2]

def pair : Network (Fin 2) where
  neighbours := fun v => if v = 0 then [1] else [0]
  nodup := by decide

def oneHopBundle : Bundle (Fin 2) where
  bundleId := List.Vector.replicate 32 0
  sourceNode := 0
  creationTimestamp := 0
  lifetimeSeconds := 1
  payload := []
  hopCount := 0
  ttl := 1

/-- The other node gets the bundle; its copy comes back. -/
theorem pair_received :
    1 = (0 : Fin 2) ∨ ∃ n, Had
      (states pair (script 0 [.transmit 0 oneHopBundle 0, .deliver 0 0, .deliver 0 0]) n) 1
        (isBundle oneHopBundle.bundleId) := by
  have hlossless : Lossless pair
      (script 0 [.transmit 0 oneHopBundle 0, .deliver 0 0, .deliver 0 0]) 0 oneHopBundle :=
    lossless_script rfl (by decide +kernel) (by decide +kernel)
  exact received_of_timely hlossless (hlossless.timely_of_card (by decide))
    (Or.inr ⟨0, rfl, by decide⟩)

end Vantablack.Abos
