import Mathlib.Data.List.Count
import Vantablack.Lib.Runs
import Vantablack.Abos.Mesh

/-!
A network of nodes that flood: each sends what it emits, and what `ABOSSystem` sends on, to all of its
neighbours. Copies are delivered in any order.
-/

namespace Vantablack.Abos

open Lib

/-- Whom each node is heard by. -/
structure Network (ι : Type*) where
  neighbours : ι → List ι
  nodup : ∀ v, (neighbours v).Nodup

def Network.Link {ι : Type*} (net : Network ι) (u v : ι) : Prop := v ∈ net.neighbours u

instance {ι : Type*} [DecidableEq ι] (net : Network ι) (u v : ι) : Decidable (net.Link u v) :=
  inferInstanceAs (Decidable (v ∈ net.neighbours u))

inductive Message (ι : Type*) where
  | beacon (b : Beacon ι)
  | bundle (b : Bundle ι)
  deriving DecidableEq

def Message.isBeacon {ι : Type*} [DecidableEq ι] (origin : ι) (timestamp : ℕ) : Message ι → Bool
  | .beacon b => b.origin = origin && b.timestamp = timestamp
  | .bundle _ => false

def Message.isBundle {ι : Type*} (id : BundleId) : Message ι → Bool
  | .beacon _ => false
  | .bundle b => b.bundleId = id

/-- A node with a message: its recipient in flight, its sender or recipient in the logs. -/
abbrev Copy (ι : Type*) := ι × Message ι

structure State (ι : Type*) where
  node : ι → MeshNode ι
  inFlight : List (Copy ι)
  emitted : List (Copy ι)
  relayed : List (Copy ι)
  handed : List (Copy ι)

def State.initial {ι : Type*} : State ι where
  node := MeshNode.new
  inFlight := []
  emitted := []
  relayed := []
  handed := []

inductive Event (ι : Type*) where
  | emitBeacon (v : ι) (now : ℕ) (nodeAlias : String)
  | transmit (v : ι) (bundle : Bundle ι) (now : ℕ)
  | deliver (i : ℕ) (now : ℕ)
  | expirePeers (v : ι) (now : ℕ)

variable {ι : Type*} [DecidableEq ι]

/-- What a node makes of a message: what it sends on, and what it is after that. -/
def onMessage (m : MeshNode ι) (now : ℕ) : Message ι → Option (Message ι) × MeshNode ι
  | .beacon b => Prod.map (Option.map .beacon) id (ABOSSystem.onBeacon m now b)
  | .bundle b => Prod.map (Option.map .bundle) id (ABOSSystem.onBundle m now b)

namespace State

def setNode (s : State ι) (v : ι) (m : MeshNode ι) : State ι :=
  { s with node := Function.update s.node v m }

def flood (net : Network ι) (s : State ι) (v : ι) (msg : Message ι) : State ι :=
  { s with inFlight := s.inFlight ++ (net.neighbours v).map fun w => (w, msg) }

def emit (net : Network ι) (s : State ι) (v : ι) (msg : Message ι) : State ι :=
  { s.flood net v msg with emitted := (v, msg) :: s.emitted }

def relay (net : Network ι) (s : State ι) (v : ι) (msg : Message ι) : State ι :=
  { s.flood net v msg with relayed := (v, msg) :: s.relayed }

/-- The copy with the number `i` is taken out of the air. -/
def hand (s : State ι) (i : ℕ) (copy : Copy ι) : State ι :=
  { s with inFlight := s.inFlight.eraseIdx i, handed := copy :: s.handed }

end State

/-- A bundle is transmitted by its source, with no hops. -/
def Bundle.ofSource (v : ι) (bundle : Bundle ι) : Bundle ι :=
  { bundle with sourceNode := v, hopCount := 0 }

/-- A copy comes to its recipient, which may send it on. -/
def State.deliver (net : Network ι) (s : State ι) (i now : ℕ) : State ι :=
  match s.inFlight[i]? with
  | none => s
  | some (v, msg) =>
      let (again, m) := onMessage (s.node v) now msg
      let s := (s.hand i (v, msg)).setNode v m
      match again with
      | none => s
      | some out => s.relay net v out

def step (net : Network ι) (s : State ι) : Event ι → State ι
  | .emitBeacon v now nodeAlias =>
      match ABOSSystem.maybeEmitBeacon (s.node v) now nodeAlias with
      | none => s
      | some (b, m) => (s.setNode v m).emit net v (.beacon b)
  | .transmit v bundle now =>
      let bundle := bundle.ofSource v
      (s.setNode v ((s.node v).trackBundleAt bundle now)).emit net v (.bundle bundle)
  | .deliver i now => s.deliver net i now
  | .expirePeers v now => s.setNode v ((s.node v).expirePeersAt now)

theorem State.setNode_self (s : State ι) (v : ι) : s.setNode v (s.node v) = s := by
  unfold setNode
  rw [Function.update_eq_self]

theorem State.setNode_apply (s : State ι) (v w : ι) (m : MeshNode ι) :
    (s.setNode v m).node w = if w = v then m else s.node w :=
  Function.update_apply ..

def run (net : Network ι) (events : List (Event ι)) : State ι :=
  events.foldl (step net) .initial

/-! ### What a step can do -/

open MeshNode in
/-- The states that one step can lead to. -/
inductive Effect (net : Network ι) (s : State ι) : State ι → Prop
  | quiet (v : ι) (m : MeshNode ι) (hm : SameMesh (s.node v) m) : Effect net s (s.setNode v m)
  | emitBeacon (v : ι) (now : ℕ) (nodeAlias : String)
      (hdue : (s.node v).beaconIntervalSecs ≤ now - (s.node v).lastBeaconAt) :
      Effect net s ((s.setNode v { s.node v with lastBeaconAt := now }).emit net v
        (.beacon (Beacon.new (s.node v).localId nodeAlias now)))
  | transmit (v : ι) (bundle : Bundle ι) (now : ℕ) :
      Effect net s ((s.setNode v ((s.node v).trackBundleAt (bundle.ofSource v) now)).emit net v
        (.bundle (bundle.ofSource v)))
  | dropBeacon (i : ℕ) (v : ι) (b : Beacon ι) (m : MeshNode ι)
      (hcopy : s.inFlight[i]? = some (v, .beacon b)) (hm : SameMesh (s.node v) m)
      (hstop : b.origin = (s.node v).localId ∨ b.ttl ≤ b.hopCount) :
      Effect net s ((s.hand i (v, .beacon b)).setNode v m)
  | relayBeacon (i : ℕ) (v : ι) (b : Beacon ι) (m : MeshNode ι)
      (hcopy : s.inFlight[i]? = some (v, .beacon b)) (hm : SameMesh (s.node v) m)
      (horigin : b.origin ≠ (s.node v).localId) (hhops : b.hopCount < b.ttl) :
      Effect net s (((s.hand i (v, .beacon b)).setNode v m).relay net v (.beacon b))
  | dropBundle (i : ℕ) (v : ι) (b : Bundle ι)
      (hcopy : s.inFlight[i]? = some (v, .bundle b)) (hstop : ¬ Forwards (s.node v) b) :
      Effect net s (s.hand i (v, .bundle b))
  | relayBundle (i : ℕ) (v : ι) (b : Bundle ι) (now : ℕ)
      (hcopy : s.inFlight[i]? = some (v, .bundle b)) (hgo : Forwards (s.node v) b) :
      Effect net s (((s.hand i (v, .bundle b)).setNode v
        ({ s.node v with forwarded := insert b.bundleId (s.node v).forwarded }.trackBundleAt
          b.incrementHop now)).relay net v (.bundle b.incrementHop))

variable {msg : Message ι}

theorem effect_deliver (net : Network ι) (s : State ι) (i now : ℕ) {v : ι}
    (h : s.inFlight[i]? = some (v, msg)) : Effect net s (s.deliver net i now) := by
  unfold State.deliver
  rw [h]
  dsimp only
  cases msg with
  | beacon b =>
      have hm := ABOSSystem.sameMesh_onBeacon (s.node v) now b
      have hout := ABOSSystem.onBeacon_fst (s.node v) now b
      by_cases hgo : b.origin ≠ (s.node v).localId ∧ b.hopCount < b.ttl
      · rw [if_pos hgo] at hout
        rw [onMessage, Prod.map_fst, hout]
        exact .relayBeacon i v b _ h hm hgo.1 hgo.2
      · rw [if_neg hgo] at hout
        rw [onMessage, Prod.map_fst, hout]
        refine .dropBeacon i v b _ h hm ?_
        by_cases horigin : b.origin = (s.node v).localId
        · exact Or.inl horigin
        · exact Or.inr (not_lt.mp fun hlt => hgo ⟨horigin, hlt⟩)
  | bundle b =>
      by_cases hgo : MeshNode.Forwards (s.node v) b
      · rw [onMessage, ABOSSystem.onBundle_of_forwards hgo]
        exact .relayBundle i v b now h hgo
      · rw [onMessage, ABOSSystem.onBundle_of_not_forwards hgo]
        have hdrop : Effect net s (s.hand i (v, .bundle b)) := .dropBundle i v b h hgo
        rwa [← State.setNode_self (s.hand i (v, .bundle b)) v] at hdrop

theorem effect_step (net : Network ι) (s : State ι) (e : Event ι) :
    step net s e = s ∨ Effect net s (step net s e) := by
  cases e with
  | emitBeacon v now nodeAlias =>
      cases hemit : ABOSSystem.maybeEmitBeacon (s.node v) now nodeAlias with
      | none =>
          left
          rw [step, hemit]
      | some out =>
          right
          obtain ⟨b, m⟩ := out
          obtain ⟨hdue, rfl, rfl⟩ := ABOSSystem.maybeEmitBeacon_eq_some.mp hemit
          rw [step, hemit]
          exact .emitBeacon v now nodeAlias hdue
  | transmit v bundle now => exact Or.inr (.transmit v bundle now)
  | deliver i now =>
      cases hcopy : s.inFlight[i]? with
      | none =>
          left
          rw [step, State.deliver, hcopy]
      | some copy => exact Or.inr (effect_deliver net s i now hcopy)
  | expirePeers v now => exact Or.inr (.quiet v _ ⟨rfl, rfl, rfl, rfl, rfl⟩)

theorem run_invariant {net : Network ι} (I : State ι → Prop) (hstart : I .initial)
    (hstep : ∀ s s', I s → Effect net s s' → I s') (events : List (Event ι)) :
    I (run net events) := by
  refine foldl_invariant I (fun s e hs => ?_) hstart events
  rcases effect_step net s e with heq | heffect
  · rwa [heq]
  · exact hstep s _ hs heffect

theorem Effect.node {net : Network ι} {s s' : State ι} (h : Effect net s s') (w : ι) :
    (s'.node w).localId = (s.node w).localId ∧
      (s'.node w).beaconIntervalSecs = (s.node w).beaconIntervalSecs ∧
      (0 < (s.node w).beaconIntervalSecs → (s.node w).lastBeaconAt ≤ (s'.node w).lastBeaconAt) := by
  have hset : ∀ v m, m.localId = (s.node v).localId →
      m.beaconIntervalSecs = (s.node v).beaconIntervalSecs →
      (0 < (s.node v).beaconIntervalSecs → (s.node v).lastBeaconAt ≤ m.lastBeaconAt) →
      ((s.setNode v m).node w).localId = (s.node w).localId ∧
        ((s.setNode v m).node w).beaconIntervalSecs = (s.node w).beaconIntervalSecs ∧
        (0 < (s.node w).beaconIntervalSecs →
          (s.node w).lastBeaconAt ≤ ((s.setNode v m).node w).lastBeaconAt) := by
    intro v m hid hint hlast
    rw [State.setNode_apply]
    by_cases hw : w = v
    · subst hw
      rw [if_pos rfl]
      exact ⟨hid, hint, hlast⟩
    · rw [if_neg hw]
      exact ⟨rfl, rfl, fun _ => le_refl _⟩
  cases h with
  | quiet v m hm => exact hset v m hm.localId hm.interval fun _ => hm.lastBeaconAt.ge
  | emitBeacon v now _ hdue =>
      refine hset v _ rfl rfl fun hpos => ?_
      dsimp only
      omega
  | transmit v bundle now =>
      obtain ⟨hid, hint, hlast, -⟩ := (s.node v).trackBundleAt_frame (bundle.ofSource v) now
      exact hset v _ hid hint fun _ => hlast.ge
  | dropBeacon i v b m _ hm _ => exact hset v m hm.localId hm.interval fun _ => hm.lastBeaconAt.ge
  | relayBeacon i v b m _ hm _ _ =>
      exact hset v m hm.localId hm.interval fun _ => hm.lastBeaconAt.ge
  | dropBundle i v b _ _ => exact ⟨rfl, rfl, fun _ => le_refl _⟩
  | relayBundle i v b now _ _ =>
      obtain ⟨hid, hint, hlast, -⟩ := MeshNode.trackBundleAt_frame
        { s.node v with forwarded := insert b.bundleId (s.node v).forwarded } b.incrementHop now
      exact hset v _ hid hint fun _ => hlast.ge

/-! ### Counting copies -/

/-- The copies of a node whose message is as `p` says. -/
def copies (x : ι) (p : Message ι → Bool) (l : List (Copy ι)) : ℕ :=
  l.countP fun e => e.1 = x && p e.2

/-- The copies whose message is as `p` says, and whose node is heard by `x`. -/
def heardBy (net : Network ι) (x : ι) (p : Message ι → Bool) (l : List (Copy ι)) : ℕ :=
  l.countP fun e => x ∈ net.neighbours e.1 && p e.2

section

variable (net : Network ι) (x : ι) (p : Message ι → Bool) (l : List (Copy ι))

theorem copies_cons (e : Copy ι) :
    copies x p (e :: l) = copies x p l + if e.1 = x && p e.2 then 1 else 0 :=
  List.countP_cons

theorem heardBy_cons (e : Copy ι) :
    heardBy net x p (e :: l) = heardBy net x p l + if x ∈ net.neighbours e.1 && p e.2 then 1 else 0 :=
  List.countP_cons

theorem heardBy_append (l' : List (Copy ι)) :
    heardBy net x p (l ++ l') = heardBy net x p l + heardBy net x p l' :=
  List.countP_append

theorem copies_append (l' : List (Copy ι)) :
    copies x p (l ++ l') = copies x p l + copies x p l' :=
  List.countP_append

theorem copies_flood (v : ι) (msg : Message ι) :
    copies x p (l ++ (net.neighbours v).map fun w => (w, msg)) =
      copies x p l + if x ∈ net.neighbours v && p msg then 1 else 0 := by
  unfold copies
  rw [List.countP_append, List.countP_map]
  congr 1
  cases hp : p msg with
  | false => simp [Function.comp_def, hp]
  | true =>
      have hcount := List.Nodup.count (net.nodup v) (a := x)
      simpa [Function.comp_def, hp, List.count, beq_eq_decide] using hcount

theorem copies_eraseIdx {i : ℕ} {e : Copy ι} (h : l[i]? = some e) :
    copies x p l = copies x p (l.eraseIdx i) + if e.1 = x && p e.2 then 1 else 0 := by
  obtain ⟨hi, rfl⟩ := List.getElem?_eq_some_iff.mp h
  have hperm := (List.getElem_cons_eraseIdx_perm hi).countP_eq fun e => e.1 = x && p e.2
  rw [copies, ← hperm, List.countP_cons, copies]

theorem copies_pos_iff : 0 < copies x p l ↔ ∃ msg, (x, msg) ∈ l ∧ p msg = true := by
  rw [copies, List.countP_pos_iff]
  constructor
  · rintro ⟨⟨v, msg⟩, hmem, hp⟩
    obtain ⟨hv, hmsg⟩ := Bool.and_eq_true_iff.mp hp
    obtain rfl : v = x := of_decide_eq_true hv
    exact ⟨msg, hmem, hmsg⟩
  · rintro ⟨msg, hmem, hmsg⟩
    exact ⟨(x, msg), hmem, Bool.and_eq_true_iff.mpr ⟨decide_eq_true rfl, hmsg⟩⟩

theorem copies_eq_zero_iff : copies x p l = 0 ↔ ∀ msg, (x, msg) ∈ l → ¬ p msg = true := by
  rw [← not_iff_not, ← ne_eq, ← Nat.pos_iff_ne_zero, copies_pos_iff]
  push Not
  rfl

theorem heardBy_pos_iff :
    0 < heardBy net x p l ↔ ∃ e ∈ l, net.Link e.1 x ∧ p e.2 = true := by
  rw [heardBy, List.countP_pos_iff]
  simp only [Bool.and_eq_true, decide_eq_true_eq, Network.Link]

end

omit [DecidableEq ι] in
theorem mem_flood {net : Network ι} {s : State ι} {v : ι} {e : Copy ι}
    (h : e ∈ (s.flood net v msg).inFlight) : e ∈ s.inFlight ∨ (e.2 = msg ∧ net.Link v e.1) := by
  rcases List.mem_append.mp h with hold | hnew
  · exact Or.inl hold
  · obtain ⟨w, hw, rfl⟩ := List.mem_map.mp hnew
    exact Or.inr ⟨rfl, hw⟩

theorem isBeacon_iff {origin : ι} {timestamp : ℕ} :
    msg.isBeacon origin timestamp = true ↔
      ∃ b, msg = .beacon b ∧ b.origin = origin ∧ b.timestamp = timestamp := by
  cases msg with
  | beacon b => simp [Message.isBeacon]
  | bundle b => simp [Message.isBeacon]

omit [DecidableEq ι] in
theorem isBundle_iff {id : BundleId} :
    msg.isBundle id = true ↔ ∃ b, msg = .bundle b ∧ b.bundleId = id := by
  cases msg with
  | beacon b => simp [Message.isBundle]
  | bundle b => simp [Message.isBundle]

/-- Each copy that was put in the air is there, or has been handed over. -/
def Balanced (net : Network ι) (s : State ι) : Prop :=
  ∀ (x : ι) (p : Message ι → Bool), copies x p s.inFlight + copies x p s.handed =
    heardBy net x p s.emitted + heardBy net x p s.relayed

section

variable {net : Network ι} {s : State ι}

theorem Balanced.setNode (h : Balanced net s) (v : ι) (m : MeshNode ι) :
    Balanced net (s.setNode v m) := h

theorem Balanced.emit (h : Balanced net s) (v : ι) (msg : Message ι) :
    Balanced net (s.emit net v msg) := by
  intro x p
  have hx := h x p
  simp only [State.emit, State.flood, copies_flood, heardBy_cons]
  omega

theorem Balanced.relay (h : Balanced net s) (v : ι) (msg : Message ι) :
    Balanced net (s.relay net v msg) := by
  intro x p
  have hx := h x p
  simp only [State.relay, State.flood, copies_flood, heardBy_cons]
  omega

theorem Balanced.hand (h : Balanced net s) {i : ℕ} {e : Copy ι} (he : s.inFlight[i]? = some e) :
    Balanced net (s.hand i e) := by
  intro x p
  have hx := h x p
  rw [copies_eraseIdx x p _ he] at hx
  simp only [State.hand, copies_cons]
  omega

theorem Balanced.effect {s' : State ι} (h : Balanced net s) (heffect : Effect net s s') :
    Balanced net s' := by
  cases heffect with
  | quiet v m _ => exact h.setNode v m
  | emitBeacon v _ _ _ => exact (h.setNode v _).emit v _
  | transmit v _ _ => exact (h.setNode v _).emit v _
  | dropBeacon i v _ m hcopy _ _ => exact (h.hand hcopy).setNode v m
  | relayBeacon i v _ m hcopy _ _ _ => exact ((h.hand hcopy).setNode v m).relay v _
  | dropBundle i v _ hcopy _ => exact h.hand hcopy
  | relayBundle i v _ _ hcopy _ => exact ((h.hand hcopy).setNode v _).relay v _

theorem balanced_initial (net : Network ι) : Balanced net .initial := fun _ _ => rfl

end

end Vantablack.Abos
