import Vantablack.Vpn.FlowTables

/-!
The local ports of `driver_loop` of `net/vpn/netstack.rs` over the whole time that it runs. The next
one is the last one and one more, and what the collector frees is never given out again.
-/

namespace Vantablack.Vpn

open Lib Layers

namespace FlowTables

variable {d : FlowTables} {pkt : Bytes}

/-! ### The ports -/

def maxFlows : ℕ := localPortEnd - firstLocalPort

instance (nat : Table Tuple ℕ) (pkt : Bytes) : Decidable (NewSyn nat pkt) :=
  decidable_of_iff ((20 ≤ pkt.length ∧ ipVersion pkt = 4 ∧ ihl pkt + 4 ≤ pkt.length ∧
      (ipProto pkt = 6 ∨ ipProto pkt = 17)) ∧ isSyn pkt = true ∧ nat.lookup (tupleOf pkt) = none)
    ⟨fun ⟨⟨hheader, hversion, hports, hproto⟩, hsyn, hnew⟩ =>
      ⟨⟨hheader, hversion, hports, hproto⟩, hsyn, hnew⟩,
    fun ⟨⟨hheader, hversion, hports, hproto⟩, hsyn, hnew⟩ =>
      ⟨⟨hheader, hversion, hports, hproto⟩, hsyn, hnew⟩⟩

/-- A packet that opens a flow, of a tuple that has no port then. -/
def Opens (d : FlowTables) : DriverAct → Bool
  | .ingest pkt _ _ => decide (NewSyn d.nat pkt)
  | _ => false

/-- How many flows the run was asked to open. -/
def served : FlowTables → List DriverAct → ℕ
  | _, [] => 0
  | d, a :: as => (d.Opens a).toNat + served (d.step a) as

/-- A packet that opens a flow gets a port that no flow has, if fewer tuples have one than there are
ports. -/
def GetsPort (d : FlowTables) (pkt : Bytes) : Prop :=
  d.nat.size < maxFlows → ∃ i nextPort nat, natIngress pkt d.nextPort d.nat = some (i, nextPort, nat) ∧
    i.localPort ∈ Set.Ico firstLocalPort localPortEnd ∧ d.flows.lookup i.localPort = none

theorem nextPort_removeIf (d : FlowTables) (p : ℕ → FlowEntry → Bool) :
    (d.removeIf p).nextPort = d.nextPort := by
  refine foldl_invariant (fun d' : FlowTables => d'.nextPort = d.nextPort) (fun d' port h => ?_) rfl _
  rw [← h, removeFlow]
  split <;> rfl

theorem nextPort_collect (d : FlowTables) (clock clock' : ℕ → ℕ) :
    (d.collect clock clock').nextPort = d.nextPort := by
  rw [collect, nextPort_removeIf, nextPort_removeIf]

theorem Inv.nextPort_step (h : d.Inv) (hle : d.nextPort ≤ localPortEnd) (a : DriverAct) :
    (d.step a).nextPort = min (d.nextPort + (d.Opens a).toNat) localPortEnd := by
  cases a with
  | ingest pkt listens now =>
      rw [FlowTables.step, Opens]
      by_cases hnew : NewSyn d.nat pkt
      · rw [decide_eq_true hnew, Bool.toNat_true]
        rcases Nat.lt_or_ge d.nextPort localPortEnd with hport | hport
        · have hnext : (d.ingest pkt listens now).nextPort = d.nextPort + 1 := by
            rw [ingest_new hnew hport h.free]
            split <;> rfl
          omega
        · rw [ingest_exhausted hnew hport]
          omega
      · rw [decide_eq_false hnew, Bool.toNat_false]
        rcases ingest_old hnew with hsame | ⟨p, -, -, hopen⟩
        · rw [hsame]
          omega
        · rw [hopen]
          exact (min_eq_left hle).symm
  | touch localPort change =>
      have hsame : (d.touch localPort change).nextPort = d.nextPort := by
        unfold FlowTables.touch
        split <;> rfl
      rw [FlowTables.step, hsame]
      exact (min_eq_left hle).symm
  | collect clock clock' =>
      rw [FlowTables.step, nextPort_collect]
      exact (min_eq_left hle).symm

theorem Inv.nextPort_foldl (h : d.Inv) (hle : d.nextPort ≤ localPortEnd) (as : List DriverAct) :
    (as.foldl FlowTables.step d).nextPort = min (d.nextPort + served d as) localPortEnd := by
  induction as generalizing d with
  | nil => exact (min_eq_left hle).symm
  | cons a as ih =>
      have hstep := h.nextPort_step hle a
      rw [List.foldl_cons, ih (h.step a) (by omega), served]
      omega

/-- After any run, a packet that opens a flow gets a port of its own while there are more ports than
flows that the run was asked to open, however many of them are still there. -/
theorem getsPort_iff (as : List DriverAct) {pkt : Bytes}
    (hnew : NewSyn (as.foldl step start).nat pkt) :
    (as.foldl step start).GetsPort pkt ↔
      ((as.foldl step start).nat.size < maxFlows → served start as < maxFlows) := by
  have hinv : (as.foldl step start).Inv := foldl_invariant Inv (fun _ a h => h.step a) inv_start _
  have hnext := inv_start.nextPort_foldl (by decide) as
  have hfirst : start.nextPort = firstLocalPort := rfl
  have hmax : firstLocalPort + maxFlows = localPortEnd := rfl
  refine imp_congr_right fun hroom => ?_
  rw [natIngress_new hnew]
  constructor
  · rintro ⟨i, nextPort, nat, hsome, -⟩
    split at hsome
    · cases hsome
    · omega
  · intro hserved
    refine ⟨ingressOf pkt _, _, _, if_neg (by omega), ⟨?_, ?_⟩, hinv.free⟩
    · change firstLocalPort ≤ (as.foldl step start).nextPort
      omega
    · change (as.foldl step start).nextPort < localPortEnd
      omega

theorem newSyn_synFrom (port : ℕ) : NewSyn ∅ (synFrom port) :=
  ⟨isFlowPacket_synFrom port, isSyn_synFrom port, rfl⟩

theorem start_getsPort : start.GetsPort (synFrom 51000) :=
  (getsPort_iff [] (newSyn_synFrom 51000)).mpr fun _ => by decide

/-- The driver without flows. -/
def idle (nextPort : ℕ) : FlowTables :=
  { start with nextPort := nextPort }

/-- A flow that is opened, and collected when nothing happened in it for five minutes. -/
def reopen : List DriverAct :=
  [.ingest (synFrom 51000) true 0, .collect (fun _ => 0) (fun _ => 300001)]

theorem foldl_reopen {p : ℕ} (hp : p < localPortEnd) :
    reopen.foldl step (idle p) = idle (p + 1) := by
  set opened := ((idle p).allot (tupleOf (synFrom 51000))).openFlow p (tupleOf (synFrom 51000)) 0
    with hopened
  have hopen : (idle p).ingest (synFrom 51000) true 0 = opened := by
    have hroom : ¬ (idle p).Full true := by
      rintro (⟨⟨⟩⟩ | ⟨⟨⟩⟩)
    exact (ingest_new (newSyn_synFrom 51000) hp rfl).trans (if_neg hroom)
  have hcollect : opened.collect (fun _ => 0) (fun _ => 300001) = opened.removeFlow p := rfl
  have hflow : opened.flows.lookup p = some _ := AList.lookup_insert _
  have hremove : opened.removeFlow p = idle (p + 1) := by
    rw [removeFlow, hflow, hopened]
    simp only [openFlow, allot, idle, start, Table.erase_insert_empty, Nat.zero_add, Nat.sub_self]
  calc reopen.foldl step (idle p)
      = ((idle p).ingest (synFrom 51000) true 0).collect (fun _ => 0) (fun _ => 300001) := rfl
    _ = idle (p + 1) := by rw [hopen, hcollect, hremove]

/-- That many times one after the other. -/
def reopened (n : ℕ) : List DriverAct :=
  (List.replicate n reopen).flatten

theorem foldl_reopened {n p : ℕ} (h : p + n ≤ localPortEnd) :
    (reopened n).foldl step (idle p) = idle (p + n) := by
  induction n generalizing p with
  | zero => rfl
  | succ n ih =>
      rw [reopened, List.replicate_succ, List.flatten_cons, List.foldl_append,
        foldl_reopen (by omega), ← reopened, ih (by omega)]
      congr 1
      omega

/-- After as many flows as there are ports no tuple has one any more, and a packet that opens a flow
gets none. -/
theorem reopened_getsNoPort : NewSyn ((reopened maxFlows).foldl step start).nat (synFrom 51000) ∧
    ¬ ((reopened maxFlows).foldl step start).GetsPort (synFrom 51000) := by
  have hend : (reopened maxFlows).foldl step start = idle localPortEnd :=
    foldl_reopened (p := firstLocalPort) le_rfl
  rw [hend]
  refine ⟨newSyn_synFrom 51000, fun hport => ?_⟩
  obtain ⟨i, nextPort, nat, hsome, -⟩ := hport (by decide)
  have hnone : natIngress (synFrom 51000) localPortEnd ∅ = none := by
    rw [natIngress_new (newSyn_synFrom 51000), if_pos le_rfl]
  cases hnone.symm.trans hsome

end FlowTables

end Vantablack.Vpn
