import Vantablack.Lib.Runs
import Vantablack.Receive.Spool

/-!
The link registry of `net/carrier.rs`, called by beacons, dialled links and accepted links at the
same time. `pin_commitment` and `register` look a pin up, set it and insert a link in separate
accesses of the maps; each access is one step, and the steps of the calls interleave.
-/

namespace Vantablack.Net

open Lib Layers Receive

/-- An established link: what the registry reads of a `QuicLink`. -/
structure QuicLink where
  localAddr : IpAddr
  peerPqCommitment : Octets 32
  deriving DecidableEq

structure LinkKey where
  fingerprint : String
  localIp : IpAddr
  deriving DecidableEq

structure Carrier where
  links : Table LinkKey QuicLink
  pins : Table String (Octets 32)

/-- Where a call is, with its local variables. `pin_commitment` is called on its own or with the
link that `register` goes on with. -/
inductive CarrierTask where
  /-- `register` before its check. -/
  | check (fp : String) (link : QuicLink)
  /-- `pin_commitment` before it looks the pin up. -/
  | find (fp : String) (commitment : Octets 32) (link : Option QuicLink)
  /-- `pin_commitment` after it found no pin. -/
  | pin (fp : String) (commitment : Octets 32) (link : Option QuicLink)
  /-- `register` after `pin_commitment`, which warned of a contradiction or not. -/
  | insert (fp : String) (link : QuicLink) (contradicts : Bool)
  deriving DecidableEq

/-- `register` goes on with its link; a bare `pin_commitment` is done. -/
def CarrierTask.resume (fp : String) (contradicts : Bool) : Option QuicLink → Option CarrierTask
  | none => none
  | some link => some (.insert fp link contradicts)

/-- The registry and the calls under way. -/
structure Registry (ι : Type) where
  carrier : Carrier
  tasks : ι → Option CarrierTask

inductive RegistryAct (ι : Type) where
  | pinCommitment (t : ι) (fp : String) (commitment : Octets 32)
  | register (t : ι) (fp : String) (link : QuicLink)
  /-- The next access of a call. -/
  | run (t : ι)
  /-- A link is removed, by a look-up that finds it closed or by `forget`. -/
  | remove (key : LinkKey)

namespace Registry

variable {ι : Type} [DecidableEq ι]

def start : Registry ι where
  carrier := { links := ∅, pins := ∅ }
  tasks _ := none

/-- One access to the maps, and where the call is after it. -/
def access (c : Carrier) : CarrierTask → Carrier × Option CarrierTask
  | .check fp link =>
      match c.pins.lookup fp with
      | some pinned =>
          if pinned ≠ link.peerPqCommitment then (c, none)
          else (c, some (.find fp link.peerPqCommitment (some link)))
      | none => (c, some (.find fp link.peerPqCommitment (some link)))
  | .find fp commitment link =>
      match c.pins.lookup fp with
      | none => (c, some (.pin fp commitment link))
      | some existing => (c, CarrierTask.resume fp (existing ≠ commitment) link)
  | .pin fp commitment link =>
      ({ c with pins := c.pins.insert fp commitment }, CarrierTask.resume fp false link)
  | .insert fp link _ =>
      ({ c with links := c.links.insert { fingerprint := fp, localIp := link.localAddr } link },
        none)

/-- A call that is under way is not begun again. -/
def step (w : Registry ι) : RegistryAct ι → Registry ι
  | .pinCommitment t fp commitment =>
      match w.tasks t with
      | none => { w with tasks := Function.update w.tasks t (some (.find fp commitment none)) }
      | some _ => w
  | .register t fp link =>
      match w.tasks t with
      | none => { w with tasks := Function.update w.tasks t (some (.check fp link)) }
      | some _ => w
  | .run t =>
      match w.tasks t with
      | none => w
      | some task =>
          let (carrier, task') := access w.carrier task
          { carrier := carrier, tasks := Function.update w.tasks t task' }
  | .remove key => { w with carrier := { w.carrier with links := w.carrier.links.erase key } }

/-- Every link presents the commitment that is pinned for its peer. -/
def LinksPinned (c : Carrier) : Prop :=
  ∀ key link, c.links.lookup key = some link →
    c.pins.lookup key.fingerprint = some link.peerPqCommitment

/-- The step changes no pin, and the links are those of the pinned keys after it. -/
def Trusts (w : Registry ι) (act : RegistryAct ι) : Prop :=
  (∀ fp commitment, w.carrier.pins.lookup fp = some commitment →
      (w.step act).carrier.pins.lookup fp = some commitment) ∧
    LinksPinned (w.step act).carrier

/-- A pin is set where there is still none, or the same; a link is inserted if no contradiction
was met. -/
def Undisturbed (w : Registry ι) : RegistryAct ι → Prop
  | .run t =>
      match w.tasks t with
      | some (.pin fp commitment _) => ∀ pinned ∈ w.carrier.pins.lookup fp, pinned = commitment
      | some (.insert _ _ contradicts) => contradicts = false
      | _ => True
  | _ => True

/-! ### The invariant -/

/-- What a call that is about to insert its link has found. -/
def Found (c : Carrier) : CarrierTask → Prop
  | .insert fp link false => c.pins.lookup fp = some link.peerPqCommitment
  | .insert fp link true => ∃ pinned, c.pins.lookup fp = some pinned ∧
      pinned ≠ link.peerPqCommitment
  | .pin _ commitment (some link) => commitment = link.peerPqCommitment
  | .find _ commitment (some link) => commitment = link.peerPqCommitment
  | _ => True

structure Inv (w : Registry ι) : Prop where
  linksPinned : LinksPinned w.carrier
  found : ∀ t task, w.tasks t = some task → Found w.carrier task

omit [DecidableEq ι] in
theorem inv_start : (start : Registry ι).Inv where
  linksPinned key link h := by cases h
  found t task h := by cases h

variable {task : CarrierTask}

theorem Found.of_pins {c c' : Carrier} (h : Found c task)
    (hpins : ∀ fp commitment, c.pins.lookup fp = some commitment →
      c'.pins.lookup fp = some commitment) : Found c' task := by
  cases task with
  | check fp link => trivial
  | find fp commitment link =>
      cases link with
      | none => trivial
      | some link => exact h
  | pin fp commitment link =>
      cases link with
      | none => trivial
      | some link => exact h
  | insert fp link contradicts =>
      cases contradicts with
      | false => exact hpins _ _ h
      | true =>
          obtain ⟨pinned, hpinned, hne⟩ := h
          exact ⟨pinned, hpins _ _ hpinned, hne⟩

theorem found_resume {c : Carrier} {fp : String} {commitment pinned : Octets 32}
    {link : Option QuicLink} (hlink : ∀ l ∈ link, commitment = l.peerPqCommitment)
    (hpinned : c.pins.lookup fp = some pinned)
    (h : CarrierTask.resume fp (pinned ≠ commitment) link = some task) : Found c task := by
  cases link with
  | none => cases h
  | some l =>
      cases h
      obtain rfl := hlink l rfl
      by_cases hne : pinned ≠ l.peerPqCommitment
      · rw [decide_eq_true hne]
        exact ⟨pinned, hpinned, hne⟩
      · rw [decide_eq_false hne]
        rw [not_not] at hne
        rw [Found, hpinned, hne]

theorem found_access {c : Carrier} {task' : CarrierTask} (h : Found c task)
    (hnext : (access c task).2 = some task')
    (hpins : ∀ fp commitment, c.pins.lookup fp = some commitment →
      (access c task).1.pins.lookup fp = some commitment) : Found (access c task).1 task' := by
  have hlink : ∀ {fp commitment} {link : Option QuicLink},
      (Found c (.find fp commitment link) ∨ Found c (.pin fp commitment link)) →
        ∀ l ∈ link, commitment = l.peerPqCommitment := by
    intro fp commitment link hfound l hl
    cases hl
    exact hfound.elim id id
  cases task with
  | check fp link =>
      rw [access] at hnext ⊢
      split at hnext
      · split at hnext
        · cases hnext
        · cases hnext
          rfl
      · cases hnext
        rfl
  | find fp commitment link =>
      have hlinks := hlink (Or.inl h)
      rw [access] at hnext ⊢
      cases hpin : c.pins.lookup fp with
      | none =>
          rw [hpin] at hnext
          cases hnext
          cases link with
          | none => trivial
          | some l => exact h
      | some pinned =>
          rw [hpin] at hnext
          exact found_resume hlinks hpin hnext
  | pin fp commitment link =>
      have hlinks := hlink (Or.inr h)
      have hset : (access c (.pin fp commitment link)).1.pins.lookup fp = some commitment :=
        AList.lookup_insert _
      refine found_resume hlinks hset ?_
      rw [decide_eq_false (not_not.mpr rfl)]
      exact hnext
  | insert fp link contradicts => cases hnext

variable {w : Registry ι}

theorem Inv.step (h : w.Inv) {act : RegistryAct ι} (htrusts : w.Trusts act) : (w.step act).Inv := by
  obtain ⟨hpins, hlinks⟩ := htrusts
  refine ⟨hlinks, fun t task htask => ?_⟩
  -- a call that did not move, or has just begun
  have hother : ∀ {t' task'}, w.tasks t' = some task' → Found (w.step act).carrier task' :=
    fun htask' => (h.found _ _ htask').of_pins hpins
  have hbegin : ∀ t' task', (w.step act).tasks = Function.update w.tasks t' (some task') →
      Found (w.step act).carrier task' → Found (w.step act).carrier task := by
    intro t' task' htasks hfound
    rw [htasks, Function.update_apply] at htask
    split at htask
    · cases htask
      exact hfound
    · exact hother htask
  cases act with
  | pinCommitment t' fp commitment =>
      cases hidle : w.tasks t' with
      | some task' =>
          rw [Registry.step, hidle] at htask
          exact hother htask
      | none =>
          refine hbegin t' (.find fp commitment none) ?_ trivial
          rw [Registry.step, hidle]
  | register t' fp link =>
      cases hidle : w.tasks t' with
      | some task' =>
          rw [Registry.step, hidle] at htask
          exact hother htask
      | none =>
          refine hbegin t' (.check fp link) ?_ trivial
          rw [Registry.step, hidle]
  | run t' =>
      cases hrun : w.tasks t' with
      | none =>
          rw [Registry.step, hrun] at htask
          exact hother htask
      | some task' =>
          have hstep : w.step (.run t') =
              { carrier := (access w.carrier task').1
                tasks := Function.update w.tasks t' (access w.carrier task').2 } := by
            rw [Registry.step, hrun]
          rw [hstep] at htask hpins ⊢
          dsimp only at htask
          rw [Function.update_apply] at htask
          split at htask
          · exact found_access (h.found t' task' hrun) htask hpins
          · exact (h.found t task htask).of_pins hpins
  | remove key => exact hother htask

/-! ### When the pins are kept -/

theorem trusts_of_pins (h : w.Inv) {act : RegistryAct ι}
    (hpins : (w.step act).carrier.pins = w.carrier.pins)
    (hlinks : ∀ key link, (w.step act).carrier.links.lookup key = some link →
      w.carrier.links.lookup key = some link) : w.Trusts act := by
  refine ⟨fun fp commitment hpin => ?_, fun key link hlink => ?_⟩
  · rw [hpins]
    exact hpin
  · rw [hpins]
    exact h.linksPinned key link (hlinks key link hlink)

theorem trusts_pin_iff (h : w.Inv) {t : ι} {fp : String} {commitment : Octets 32}
    {link : Option QuicLink} (htask : w.tasks t = some (.pin fp commitment link)) :
    w.Trusts (.run t) ↔ ∀ pinned ∈ w.carrier.pins.lookup fp, pinned = commitment := by
  have hstep : (w.step (.run t)).carrier =
      { w.carrier with pins := w.carrier.pins.insert fp commitment } := by
    rw [Registry.step, htask]
    rfl
  constructor
  · intro htrusts pinned hpinned
    have hkept := htrusts.1 fp pinned hpinned
    rw [hstep] at hkept
    exact Option.some.inj (hkept.symm.trans (AList.lookup_insert _))
  · intro hsame
    have hpins : ∀ fp' c, w.carrier.pins.lookup fp' = some c →
        (w.step (.run t)).carrier.pins.lookup fp' = some c := by
      intro fp' c hc
      rw [hstep, Table.lookup_insert_eq_some]
      by_cases hfp : fp' = fp
      · subst hfp
        exact Or.inl ⟨rfl, (hsame c hc).symm⟩
      · exact Or.inr ⟨hfp, hc⟩
    refine ⟨hpins, fun key l hl => ?_⟩
    rw [hstep] at hl
    exact hpins _ _ (h.linksPinned key l hl)

theorem trusts_insert_iff (h : w.Inv) {t : ι} {fp : String} {link : QuicLink} {contradicts : Bool}
    (htask : w.tasks t = some (.insert fp link contradicts)) :
    w.Trusts (.run t) ↔ contradicts = false := by
  have hstep : (w.step (.run t)).carrier =
      { w.carrier with
        links := w.carrier.links.insert { fingerprint := fp, localIp := link.localAddr } link } := by
    rw [Registry.step, htask]
    rfl
  have hfound := h.found t _ htask
  constructor
  · intro htrusts
    rw [← Bool.not_eq_true]
    rintro rfl
    obtain ⟨pinned, hpinned, hne⟩ := hfound
    have hpin := htrusts.2 { fingerprint := fp, localIp := link.localAddr } link (by
      rw [hstep]
      exact AList.lookup_insert _)
    rw [hstep] at hpin
    exact hne (Option.some.inj (hpinned.symm.trans hpin))
  · rintro rfl
    refine ⟨fun fp' c hc => ?_, fun key l hl => ?_⟩
    · rw [hstep]
      exact hc
    · rw [hstep] at hl ⊢
      rcases Table.lookup_insert_eq_some.mp hl with ⟨rfl, rfl⟩ | ⟨-, hold⟩
      · exact hfound
      · exact h.linksPinned key l hold

theorem trusts_iff (h : w.Inv) (act : RegistryAct ι) : w.Trusts act ↔ w.Undisturbed act := by
  cases act with
  | pinCommitment t fp commitment =>
      refine iff_of_true (trusts_of_pins h ?_ ?_) trivial
      · rw [Registry.step]
        split <;> rfl
      · intro key link hl
        rw [Registry.step] at hl
        split at hl <;> exact hl
  | register t fp link =>
      refine iff_of_true (trusts_of_pins h ?_ ?_) trivial
      · rw [Registry.step]
        split <;> rfl
      · intro key link' hl
        rw [Registry.step] at hl
        split at hl <;> exact hl
  | remove key =>
      refine iff_of_true (trusts_of_pins h rfl fun key' link hl => ?_) trivial
      exact (Table.lookup_erase_eq_some.mp hl).2
  | run t =>
      have hquiet : ∀ task, w.tasks t = some task → (access w.carrier task).1 = w.carrier →
          w.Trusts (.run t) := by
        intro task htask hsame
        have hstep : (w.step (.run t)).carrier = w.carrier := by
          rw [Registry.step, htask]
          exact hsame
        refine trusts_of_pins h (congrArg Carrier.pins hstep) fun key link hl => ?_
        rw [hstep] at hl
        exact hl
      cases htask : w.tasks t with
      | none =>
          have hstep : w.step (.run t) = w := by rw [Registry.step, htask]
          rw [Undisturbed, htask]
          refine iff_of_true (trusts_of_pins h (by rw [hstep]) fun key link hl => ?_) trivial
          rw [hstep] at hl
          exact hl
      | some task =>
          rw [Undisturbed, htask]
          cases task with
          | check fp link =>
              refine iff_of_true (hquiet _ htask ?_) trivial
              rw [access]
              split
              · split <;> rfl
              · rfl
          | find fp commitment link =>
              refine iff_of_true (hquiet _ htask ?_) trivial
              rw [access]
              split <;> rfl
          | pin fp commitment link => exact trusts_pin_iff h htask
          | insert fp link contradicts => exact trusts_insert_iff h htask

/-- In every interleaving of the calls, pins stay and links match them exactly if no call finds,
when it sets a pin, that another has set a different one since it looked, and none inserts a link
after `pin_commitment` met a contradiction. -/
theorem pins_kept_iff (acts : List (RegistryAct ι)) :
    Always step Trusts (start : Registry ι) acts ↔
      Always step Undisturbed (start : Registry ι) acts :=
  Always.congr_of_kept Inv (fun _ _ h htrusts => h.step htrusts) (fun _ act h => trusts_iff h act)
    inv_start acts

/-- Two beacons announce different commitments for one peer, and a link that presents a third one is
registered while they are pinned. -/
def crossedCalls : List (RegistryAct ℕ) :=
  let commitment (b : UInt8) : Octets 32 := List.Vector.replicate 32 b
  let link : QuicLink :=
    { localAddr := .v4 (List.Vector.replicate 4 10), peerPqCommitment := commitment 3 }
  [.register 2 "peer" link, .run 2, .pinCommitment 0 "peer" (commitment 1),
    .pinCommitment 1 "peer" (commitment 2), .run 0, .run 1, .run 0, .run 1, .run 2, .run 2]

/-- The first commitment is pinned after the seventh step and gone after the eighth; and the link is
registered although it presents neither. -/
theorem crossed_calls_replace_pin :
    let w := crossedCalls.foldl step start
    ((crossedCalls.take 7).foldl step start).carrier.pins.lookup "peer" =
        some (List.Vector.replicate 32 1) ∧
      w.carrier.pins.lookup "peer" = some (List.Vector.replicate 32 2) ∧
      ¬ LinksPinned w.carrier ∧ ¬ Always step Trusts (start : Registry ℕ) crossedCalls := by
  have hpin : (crossedCalls.foldl step start).carrier.pins.lookup "peer" =
      some (List.Vector.replicate 32 2) := by decide +kernel
  have hlink : (crossedCalls.foldl step start).carrier.links.lookup
      { fingerprint := "peer", localIp := .v4 (List.Vector.replicate 4 10) } =
        some { localAddr := .v4 (List.Vector.replicate 4 10)
               peerPqCommitment := List.Vector.replicate 32 3 } := by decide +kernel
  have hnot : ¬ LinksPinned (crossedCalls.foldl step start).carrier := by
    intro h
    have hsame := hpin.symm.trans (h _ _ hlink)
    exact absurd hsame (by decide)
  refine ⟨by decide +kernel, hpin, hnot, fun h => hnot ?_⟩
  exact (Always.invariant Inv (fun _ _ hinv htrusts => hinv.step htrusts) inv_start h).linksPinned

end Registry

end Vantablack.Net
