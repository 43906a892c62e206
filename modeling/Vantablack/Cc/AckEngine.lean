import Vantablack.Cc.Bbr

/-!
The engine of `net/cc.rs` that counts what is in flight, measures round trips, infers losses and
drives one of the three laws. Counters wrap as in a release build. A conversion from seconds that
does not fit a `Duration` panics.
-/

namespace Vantablack.Cc

open Lib List

inductive CcAlgorithm where
  | cubic
  | newReno
  | bbr
  deriving DecidableEq

/-- What the engine uses of a law. -/
structure ControllerOps (K σ : Type) where
  cwnd : σ → ℕ
  onAck : σ → UInt64 → ℕ → ℕ → σ
  onLoss : σ → ℕ → σ
  setInFlight : σ → ℕ → σ
  pacingRateBps : σ → ℕ → K

/-- The same law, with the number of times that `on_loss` was called. -/
def ControllerOps.counting {K σ : Type} (ops : ControllerOps K σ) : ControllerOps K (σ × ℕ) where
  cwnd s := ops.cwnd s.1
  onAck s ackedBytes rtt now := (ops.onAck s.1 ackedBytes rtt now, s.2)
  onLoss s now := (ops.onLoss s.1 now, s.2 + 1)
  setInFlight s bytes := (ops.setInFlight s.1 bytes, s.2)
  pacingRateBps s srtt := ops.pacingRateBps s.1 srtt

inductive CongestionController (K : Type) where
  | cubic (c : Cubic K)
  | newReno (n : NewReno K)
  | bbr (b : Bbr K)

variable {K σ : Type} [Field K] [LinearOrder K] [FloorRing K]

namespace CongestionController

variable [IsStrictOrderedRing K]

def new (algorithm : CcAlgorithm) (mss : UInt64) : CongestionController K :=
  match algorithm with
  | .cubic => .cubic (Cubic.new mss)
  | .newReno => .newReno (NewReno.new mss)
  | .bbr => .bbr (Bbr.new mss)

def cwnd : CongestionController K → ℕ
  | .cubic c => c.cwnd
  | .newReno n => n.cwnd
  | .bbr b => b.cwnd

/-- The laws by name; `cbrt` is the cube root. -/
def ops (cbrt : K → K) : ControllerOps K (CongestionController K) where
  cwnd := cwnd
  onAck s ackedBytes rtt now :=
    match s with
    | .cubic c => .cubic (c.onAck cbrt ackedBytes rtt now)
    | .newReno n => .newReno (n.onAck ackedBytes rtt now)
    | .bbr b => .bbr (b.onAck ackedBytes rtt now)
  onLoss s now :=
    match s with
    | .cubic c => .cubic (c.onLoss cbrt now)
    | .newReno n => .newReno (n.onLoss now)
    | .bbr b => .bbr (b.onLoss now)
  setInFlight s bytes :=
    match s with
    | .bbr b => .bbr (b.setInFlight bytes)
    | other => other
  pacingRateBps s srtt :=
    match s with
    | .bbr b => b.pacingRateBps
    | other => (other.cwnd : K) / max (asSecs srtt) (1 / 1000)

end CongestionController

/-! ### The pacer -/

structure Pacer (K : Type) where
  rateBps : K
  tokens : K
  last : Option ℕ
  burstCap : K

namespace Pacer

def new (rateBps : K) (burstCapBytes : UInt64) : Pacer K where
  rateBps := max rateBps 1
  tokens := asF64 burstCapBytes
  last := none
  burstCap := asF64 burstCapBytes

def refill (p : Pacer K) (now : ℕ) : Pacer K :=
  let elapsed : K := asSecs (now - p.last.getD now)
  let p := { p with last := some now }
  if elapsed ≤ 0 then p else { p with tokens := min (p.tokens + elapsed * p.rateBps) p.burstCap }

def consume (p : Pacer K) (bytes : K) : Pacer K := { p with tokens := max (p.tokens - bytes) 0 }

end Pacer

/-! ### The engine -/

structure Outstanding where
  seq : ℕ
  bytes : UInt64
  sentAt : ℕ
  deriving DecidableEq

structure AckOutcome where
  newlyAcked : ℕ := 0
  rtt : Option ℕ := none
  loss : Bool := false
  recoveryEntered : Bool := false
  flightCleared : Bool := false
  deriving DecidableEq

structure CcStats where
  segmentsSent : ℕ := 0
  bytesSent : ℕ := 0
  segmentsAcked : ℕ := 0
  bytesAcked : ℕ := 0
  lossEvents : ℕ := 0
  duplicateAcks : ℕ := 0
  timeouts : ℕ := 0
  deriving DecidableEq

structure AckEngine (K σ : Type) where
  mss : UInt64
  controller : σ
  pacer : Pacer K
  outstanding : List Outstanding
  inFlight : ℕ
  nextSeq : ℕ
  highestAcked : Option ℕ
  duplicateAcks : ℕ
  srtt : Option ℕ
  rttvar : ℕ
  minRtt : Option ℕ
  inLossEpisode : Bool
  rto : ℕ
  backoffShift : ℕ
  stats : CcStats

/-- One second. -/
def minRto : ℕ := 1000000000

/-- A minute. -/
def maxRto : ℕ := 60000000000

def dupAckThreshold : ℕ := 3

/-- `wrapping_add` of two `u64`. -/
def wrappingAdd (a b : ℕ) : ℕ := (a + b) % 2 ^ 64

/-- `Duration::from_secs_f64`: the nearest nanosecond, the even one of two. -/
def fromSecsF64 (secs : K) : Option ℕ :=
  let nanos := secs * 1000000000
  let below := ⌊nanos⌋₊
  let rest := nanos - below
  let rounded := if 1 / 2 < rest ∨ (rest = 1 / 2 ∧ below % 2 = 1) then below + 1 else below
  if secs < 0 ∨ 2 ^ 64 * 1000000000 ≤ rounded then none else some rounded

namespace AckEngine

/-- `controller` is that of the algorithm and `mss`. -/
def new (controller : σ) (mss : UInt64) : AckEngine K σ :=
  let mss := max mss 1
  { mss := mss
    controller := controller
    pacer := Pacer.new (asF64 initCwnd / (1 / 10)) (max initCwnd (2 * mss))
    outstanding := []
    inFlight := 0
    nextSeq := 0
    highestAcked := none
    duplicateAcks := 0
    srtt := none
    rttvar := 0
    minRtt := none
    inLossEpisode := false
    rto := minRto
    backoffShift := 0
    stats := {} }

variable (ops : ControllerOps K σ)

def refreshPacer (e : AckEngine K σ) (now : ℕ) : AckEngine K σ :=
  let rate := ops.pacingRateBps e.controller (e.srtt.getD 100000000)
  let pacer := { e.pacer with
    rateBps := max rate 1
    burstCap := ((max (ops.cwnd e.controller) (2 * e.mss).toNat : ℕ) : K) }
  { e with pacer := pacer.refill now }

/-- The sequence number comes back with the engine. -/
def onSend (e : AckEngine K σ) (bytes : UInt64) (now : ℕ) : ℕ × AckEngine K σ :=
  let inFlight := wrappingAdd e.inFlight bytes.toNat
  (e.nextSeq,
    { e with
      nextSeq := wrappingAdd e.nextSeq 1
      pacer := e.pacer.consume (asF64 bytes)
      inFlight := inFlight
      outstanding := e.outstanding ++ [⟨e.nextSeq, bytes, now⟩]
      stats := { e.stats with
        segmentsSent := wrappingAdd e.stats.segmentsSent 1
        bytesSent := wrappingAdd e.stats.bytesSent bytes.toNat }
      controller := ops.setInFlight e.controller inFlight })

/-- The smoothed round trip time and its variation after a sample. -/
def smoothed (e : AckEngine K σ) (sample : ℕ) : Option (ℕ × ℕ) :=
  match e.srtt with
  | none => (fromSecsF64 (asSecs sample / 2 : K)).map fun rttvar => (sample, rttvar)
  | some srtt =>
      let diff := (srtt - sample) + (sample - srtt)
      (fromSecsF64 (3 / 4 * asSecs e.rttvar + 1 / 4 * asSecs diff : K)).bind fun rttvar =>
        (fromSecsF64 (7 / 8 * asSecs srtt + 1 / 8 * asSecs sample : K)).map fun srtt =>
          (srtt, rttvar)

def observeRtt (e : AckEngine K σ) (sample : ℕ) : Option (AckEngine K σ) :=
  (e.smoothed sample).bind fun s =>
    (fromSecsF64 (asSecs s.1 + 4 * asSecs s.2 : K)).map fun rto =>
      { e with
        highestAcked := some e.nextSeq
        srtt := some s.1
        rttvar := s.2
        minRtt := some (match e.minRtt with
          | some current => if current ≤ sample then current else sample
          | none => sample)
        rto := min (max rto minRto) maxRto }

/-- One reduction of the window for a loss episode. -/
def declareLoss (e : AckEngine K σ) (now : ℕ) (outcome : AckOutcome) :
    AckOutcome × AckEngine K σ :=
  let outcome := { outcome with loss := true }
  if e.inLossEpisode then (outcome, e.refreshPacer ops now)
  else
    let e := { e with
      inLossEpisode := true
      controller := ops.onLoss e.controller now
      stats := { e.stats with lossEvents := wrappingAdd e.stats.lossEvents 1 } }
    ({ outcome with recoveryEntered := true }, e.refreshPacer ops now)

/-- The segments that an acknowledgement covers. -/
def covered (e : AckEngine K σ) (ack : ℕ) : List Outstanding :=
  e.outstanding.takeWhile (·.seq < ack)

/-- The segments at the front come off as long as they are covered. -/
def popCovered (e : AckEngine K σ) (ack : ℕ) : AckEngine K σ :=
  let acked := e.covered ack
  { e with
    outstanding := e.outstanding.dropWhile (·.seq < ack)
    inFlight := acked.foldl (fun n s => n - s.bytes.toNat) e.inFlight
    stats := { e.stats with
      segmentsAcked := acked.foldl (fun n _ => wrappingAdd n 1) e.stats.segmentsAcked
      bytesAcked := acked.foldl (fun n s => wrappingAdd n s.bytes.toNat) e.stats.bytesAcked } }

def newlyAcked (e : AckEngine K σ) (ack : ℕ) : ℕ :=
  (e.covered ack).foldl (fun n s => wrappingAdd n s.bytes.toNat) 0

/-- New data ends the recovery and gives a sample, if a segment was covered. -/
def ackNewData (e : AckEngine K σ) (newly : ℕ) (newest : Option ℕ) (now : ℕ) :
    Option (AckEngine K σ) :=
  let e := { e with duplicateAcks := 0, backoffShift := 0, inLossEpisode := false }
  let sampled :=
    match newest with
    | some sample => e.observeRtt sample
    | none => some e
  sampled.map fun e =>
    let controller := ops.onAck e.controller (UInt64.ofNat newly) (e.srtt.getD 100000000) now
    { e with controller := ops.setInFlight controller e.inFlight }

/-- The third acknowledgement without new data in a row is a loss. -/
def ackDuplicate (e : AckEngine K σ) (now : ℕ) : AckOutcome × AckEngine K σ :=
  let e := { e with
    stats := { e.stats with duplicateAcks := wrappingAdd e.stats.duplicateAcks 1 }
    duplicateAcks := (e.duplicateAcks + 1) % 2 ^ 32 }
  if dupAckThreshold ≤ e.duplicateAcks then e.declareLoss ops now {} else ({}, e)

def onAck (e : AckEngine K σ) (ack now : ℕ) : Option (AckOutcome × AckEngine K σ) :=
  let newly := e.newlyAcked ack
  let newest := (e.covered ack).getLast?.map fun s => now - s.sentAt
  let e := e.popCovered ack
  let acked :=
    if 0 < newly then
      (e.ackNewData ops newly newest now).map fun e =>
        (({ newlyAcked := newly, rtt := newest } : AckOutcome), e)
    else some (e.ackDuplicate ops now)
  acked.map fun r =>
    ({ r.1 with flightCleared := r.2.outstanding.isEmpty }, r.2.refreshPacer ops now)

def onTimeout (e : AckEngine K σ) (now : ℕ) : AckOutcome × AckEngine K σ :=
  let (outcome, e) := e.declareLoss ops now {}
  let e := { e with
    stats := { e.stats with timeouts := wrappingAdd e.stats.timeouts 1 }
    backoffShift := min (e.backoffShift + 1) 6
    duplicateAcks := 0 }
  ({ outcome with loss := true, flightCleared := e.outstanding.isEmpty }, e)

end AckEngine

/-! ### The books of the engine -/

/-- What the engine counts, with the number of times that its law was told of a loss. -/
structure Ledger where
  outstanding : List Outstanding
  inFlight : ℕ
  nextSeq : ℕ
  highestAcked : Option ℕ
  inLossEpisode : Bool
  bytesSent : ℕ
  bytesAcked : ℕ
  losses : ℕ

/-- A loss that is declared: the law is told of it unless the episode has had its loss. -/
def Ledger.lost (l : Ledger) : Ledger :=
  { l with
    inLossEpisode := true
    losses := if l.inLossEpisode then l.losses else l.losses + 1 }

namespace AckEngine

variable (ops : ControllerOps K σ)

def ledger {K σ : Type} (e : AckEngine K (σ × ℕ)) : Ledger where
  outstanding := e.outstanding
  inFlight := e.inFlight
  nextSeq := e.nextSeq
  highestAcked := e.highestAcked
  inLossEpisode := e.inLossEpisode
  bytesSent := e.stats.bytesSent
  bytesAcked := e.stats.bytesAcked
  losses := e.controller.2

variable (e : AckEngine K (σ × ℕ))

omit [FloorRing K] in
theorem ledger_refreshPacer (now : ℕ) : (e.refreshPacer ops.counting now).ledger = e.ledger := rfl

omit [FloorRing K] in
theorem ledger_declareLoss (now : ℕ) (outcome : AckOutcome) :
    (e.declareLoss ops.counting now outcome).2.ledger = e.ledger.lost := by
  rw [declareLoss, Ledger.lost]
  by_cases hepisode : e.inLossEpisode = true
  · have hledger : e.ledger.inLossEpisode = true := hepisode
    rw [if_pos hepisode, if_pos hledger]
    show e.ledger = _
    rw [← hledger]
  · have hledger : ¬ e.ledger.inLossEpisode = true := hepisode
    rw [if_neg hepisode, if_neg hledger]
    rfl

omit [FloorRing K] in
theorem ledger_onTimeout (now : ℕ) : (e.onTimeout ops.counting now).2.ledger = e.ledger.lost :=
  ledger_declareLoss ops e now {}

theorem ledger_ackNewData {e e' : AckEngine K (σ × ℕ)} {newly sample now : ℕ}
    (h : e.ackNewData ops.counting newly (some sample) now = some e') :
    e'.ledger = { e.ledger with highestAcked := some e.nextSeq, inLossEpisode := false } := by
  obtain ⟨sampled, hsampled, rfl⟩ := Option.map_eq_some_iff.mp h
  obtain ⟨s, -, hobserved⟩ := Option.bind_eq_some_iff.mp hsampled
  obtain ⟨rto, -, rfl⟩ := Option.map_eq_some_iff.mp hobserved
  rfl

theorem ledger_onAck {e : AckEngine K (σ × ℕ)} {ack now : ℕ} {r : AckOutcome × AckEngine K (σ × ℕ)}
    (h : e.onAck ops.counting ack now = some r) :
    (0 < e.newlyAcked ack ∧
        r.2.ledger = { (e.popCovered ack).ledger with
          highestAcked := some e.nextSeq
          inLossEpisode := false }) ∨
      (e.newlyAcked ack = 0 ∧
        (r.2.ledger = (e.popCovered ack).ledger ∨
          r.2.ledger = (e.popCovered ack).ledger.lost)) := by
  obtain ⟨middle, hmiddle, rfl⟩ := Option.map_eq_some_iff.mp h
  split at hmiddle
  · rename_i hnew
    refine .inl ⟨hnew, ?_⟩
    obtain ⟨e', he', rfl⟩ := Option.map_eq_some_iff.mp hmiddle
    cases hnewest : (e.covered ack).getLast? with
    | none =>
        rw [newlyAcked, getLast?_eq_none_iff.mp hnewest] at hnew
        cases hnew
    | some s =>
        rw [hnewest] at he'
        have hdata : (e.popCovered ack).ackNewData ops.counting (e.newlyAcked ack)
            (some (now - s.sentAt)) now = some e' := he'
        rw [ledger_refreshPacer]
        exact ledger_ackNewData ops hdata
  · rename_i hnone
    refine .inr ⟨Nat.eq_zero_of_not_pos hnone, ?_⟩
    cases hmiddle
    rw [ledger_refreshPacer, ackDuplicate]
    split
    · exact .inr (ledger_declareLoss ops _ now _)
    · exact .inl rfl

theorem onAck_newlyAcked {ops : ControllerOps K σ} {e : AckEngine K σ} {ack now : ℕ}
    {r : AckOutcome × AckEngine K σ} (h : e.onAck ops ack now = some r) :
    r.1.newlyAcked = e.newlyAcked ack := by
  obtain ⟨middle, hmiddle, rfl⟩ := Option.map_eq_some_iff.mp h
  split at hmiddle
  · obtain ⟨e', -, rfl⟩ := Option.map_eq_some_iff.mp hmiddle
    rfl
  · rename_i hnone
    cases hmiddle
    rw [Nat.eq_zero_of_not_pos hnone]
    show ((e.popCovered ack).ackDuplicate ops now).1.newlyAcked = 0
    rw [ackDuplicate]
    split
    · rw [declareLoss]
      split <;> rfl
    · rfl

/-- The round trip time that an acknowledgement measures can be taken into the estimate. -/
def RttFits {σ : Type} (e : AckEngine K σ) (ack now : ℕ) : Prop :=
  ∀ s ∈ (e.covered ack).getLast?, (e.observeRtt (now - s.sentAt)).isSome = true

theorem onAck_isSome_iff {ops : ControllerOps K σ} {e : AckEngine K σ} {ack now : ℕ}
    (hnew : 0 < e.newlyAcked ack) : (e.onAck ops ack now).isSome = true ↔ e.RttFits ack now := by
  cases hnewest : (e.covered ack).getLast? with
  | none =>
      rw [newlyAcked, getLast?_eq_none_iff.mp hnewest] at hnew
      cases hnew
  | some s =>
      have hfits : e.RttFits ack now ↔ (e.observeRtt (now - s.sentAt)).isSome = true := by
        simp [RttFits, hnewest]
      rw [hfits, onAck, if_pos hnew, hnewest]
      simp only [Option.map_some, ackNewData, Option.isSome_map, observeRtt, Option.isSome_bind]
      rfl

end AckEngine

def bytesOf (segments : List Outstanding) : ℕ := (segments.map (·.bytes.toNat)).sum

@[simp] theorem bytesOf_cons (s : Outstanding) (segments : List Outstanding) :
    bytesOf (s :: segments) = s.bytes.toNat + bytesOf segments := rfl

variable (segments : List Outstanding)

theorem bytesOf_append (later : List Outstanding) :
    bytesOf (segments ++ later) = bytesOf segments + bytesOf later := by
  rw [bytesOf, map_append, sum_append, bytesOf, bytesOf]

theorem foldl_sub_bytes (n : ℕ) :
    segments.foldl (fun n s => n - s.bytes.toNat) n = n - bytesOf segments := by
  induction segments generalizing n with
  | nil => rfl
  | cons s segments ih => rw [foldl_cons, ih, bytesOf_cons, Nat.sub_sub]

theorem foldl_add_bytes {n : ℕ} (h : n + bytesOf segments < 2 ^ 64) :
    segments.foldl (fun n s => wrappingAdd n s.bytes.toNat) n = n + bytesOf segments := by
  induction segments generalizing n with
  | nil => rfl
  | cons s segments ih =>
      rw [bytesOf_cons] at h ⊢
      have hfirst : wrappingAdd n s.bytes.toNat = n + s.bytes.toNat :=
        Nat.mod_eq_of_lt (by omega)
      rw [foldl_cons, hfirst, ih (by omega), Nat.add_assoc]

/-! ### The invariant of the books -/

/-- What holds of the books, `covered` being the numbers that came off and `before` the losses up to
the last acknowledgement of new data. The highest number acknowledged is read as the number of a
segment, or with `next` as the number after it. -/
structure Books (next : Bool) (covered : List ℕ) (before : ℕ) (l : Ledger) : Prop where
  seqs : covered ++ l.outstanding.map (·.seq) = range l.nextSeq
  inFlight : l.inFlight = bytesOf l.outstanding
  conserved : l.bytesAcked + l.inFlight = l.bytesSent
  highestAcked : ∀ h ∈ l.highestAcked, ∃ s ∈ covered, h ≤ s + next.toNat
  losses : l.losses ≤ before + l.inLossEpisode.toNat
  nextSeq_lt : l.nextSeq < 2 ^ 64
  bytesSent_lt : l.bytesSent < 2 ^ 64

namespace Books

variable {next : Bool} {covered : List ℕ} {before : ℕ} {l : Ledger}

theorem lost (h : Books next covered before l) : Books next covered before l.lost where
  seqs := h.seqs
  inFlight := h.inFlight
  conserved := h.conserved
  highestAcked := h.highestAcked
  losses := by
    have hlosses := h.losses
    cases hepisode : l.inLossEpisode
    · rw [hepisode] at hlosses
      simpa [Ledger.lost, hepisode] using hlosses
    · rw [hepisode] at hlosses
      simpa [Ledger.lost, hepisode] using hlosses
  nextSeq_lt := h.nextSeq_lt
  bytesSent_lt := h.bytesSent_lt

variable {e : AckEngine K (σ × ℕ)}

omit [Field K] [LinearOrder K] [FloorRing K] in
theorem covered_bytes (h : Books next covered before e.ledger) (ack : ℕ) :
    e.inFlight = bytesOf (e.covered ack) + bytesOf (e.popCovered ack).outstanding ∧
      e.stats.bytesAcked + bytesOf (e.covered ack) < 2 ^ 64 := by
  have hsplit : e.covered ack ++ (e.popCovered ack).outstanding = e.outstanding :=
    takeWhile_append_dropWhile
  have hinFlight : e.inFlight = bytesOf e.outstanding := h.inFlight
  have hconserved : e.stats.bytesAcked + e.inFlight = e.stats.bytesSent := h.conserved
  have hlt : e.stats.bytesSent < 2 ^ 64 := h.bytesSent_lt
  rw [← hsplit, bytesOf_append] at hinFlight
  exact ⟨hinFlight, by omega⟩

omit [Field K] [LinearOrder K] [FloorRing K] in
theorem newlyAcked (h : Books next covered before e.ledger) (ack : ℕ) :
    e.newlyAcked ack = bytesOf (e.covered ack) := by
  obtain ⟨-, hlt⟩ := h.covered_bytes ack
  rw [AckEngine.newlyAcked, foldl_add_bytes _ (by omega), Nat.zero_add]

omit [Field K] [LinearOrder K] [FloorRing K] in
theorem popCovered (h : Books next covered before e.ledger) (ack : ℕ) :
    Books next (covered ++ (e.covered ack).map (·.seq)) before (e.popCovered ack).ledger := by
  obtain ⟨hinFlight, hlt⟩ := h.covered_bytes ack
  have hconserved : e.stats.bytesAcked + e.inFlight = e.stats.bytesSent := h.conserved
  have hpopped : (e.popCovered ack).inFlight = e.inFlight - bytesOf (e.covered ack) :=
    foldl_sub_bytes _ _
  have hacked : (e.popCovered ack).stats.bytesAcked =
      e.stats.bytesAcked + bytesOf (e.covered ack) := foldl_add_bytes _ hlt
  constructor
  · show (covered ++ (e.covered ack).map (·.seq)) ++ (e.popCovered ack).outstanding.map (·.seq) =
      range e.nextSeq
    have hsplit : e.covered ack ++ (e.popCovered ack).outstanding = e.outstanding :=
      takeWhile_append_dropWhile
    rw [append_assoc, ← map_append, hsplit]
    exact h.seqs
  · show (e.popCovered ack).inFlight = bytesOf (e.popCovered ack).outstanding
    omega
  · show (e.popCovered ack).stats.bytesAcked + (e.popCovered ack).inFlight = e.stats.bytesSent
    omega
  · intro n hn
    obtain ⟨s, hs, hle⟩ := h.highestAcked n hn
    exact ⟨s, mem_append_left _ hs, hle⟩
  · exact h.losses
  · exact h.nextSeq_lt
  · exact h.bytesSent_lt

theorem top_iff {rest : List ℕ} {n : ℕ} (h : covered ++ rest = range n) (hpos : 0 < n) :
    (∃ s ∈ covered, n ≤ s + next.toNat) ↔ next = true ∧ rest = [] := by
  constructor
  · rintro ⟨s, hs, hle⟩
    have hlt : s < n := mem_range.mp (h ▸ mem_append_left _ hs)
    cases next with
    | false => exact absurd hle (by simpa using hlt)
    | true =>
        refine ⟨rfl, eq_nil_iff_forall_not_mem.mpr fun t ht => ?_⟩
        have hsorted : (covered ++ rest).Pairwise (· < ·) := h ▸ pairwise_lt_range
        have hst : s < t := (pairwise_append.mp hsorted).2.2 s hs t ht
        have htn : t < n := mem_range.mp (h ▸ mem_append_right _ ht)
        rw [Bool.toNat_true] at hle
        omega
  · rintro ⟨rfl, rfl⟩
    rw [append_nil] at h
    exact ⟨n - 1, h ▸ mem_range.mpr (by omega), by rw [Bool.toNat_true]; omega⟩

end Books

/-! ### Runs -/

inductive AckCall where
  | onSend (bytes : UInt64) (now : ℕ)
  | onAck (ack : UInt64) (now : ℕ)
  | onTimeout (now : ℕ)

/-- An engine in a run: the numbers that acknowledgements covered, and how many losses its law had
been told of at the last acknowledgement of new data. -/
structure Watched (K σ : Type) where
  engine : AckEngine K (σ × ℕ)
  coveredSeqs : List ℕ
  lossesBefore : ℕ

namespace Watched

def new (controller : σ) (mss : UInt64) : Watched K σ :=
  ⟨AckEngine.new (controller, 0) mss, [], 0⟩

/-- The engine after an acknowledgement that returns. -/
def acked (w : Watched K σ) (ack : ℕ) (r : AckOutcome × AckEngine K (σ × ℕ)) : Watched K σ where
  engine := r.2
  coveredSeqs := w.coveredSeqs ++ (w.engine.covered ack).map (·.seq)
  lossesBefore := if 0 < r.1.newlyAcked then r.2.controller.2 else w.lossesBefore

variable (ops : ControllerOps K σ)

def step (w : Watched K σ) : AckCall → Option (Watched K σ)
  | .onSend bytes now => some { w with engine := (w.engine.onSend ops.counting bytes now).2 }
  | .onAck ack now => (w.engine.onAck ops.counting ack.toNat now).map (w.acked ack.toNat)
  | .onTimeout now => some { w with engine := (w.engine.onTimeout ops.counting now).2 }

/-- The run: after a panic there is no engine any more. -/
def run (w : Option (Watched K σ)) (c : AckCall) : Option (Watched K σ) := w.bind (·.step ops c)

structure Sound (next : Bool) (w : Watched K σ) : Prop where
  inFlight : w.engine.inFlight = bytesOf w.engine.outstanding
  outstanding : w.engine.outstanding.map (·.seq) <:+ range w.engine.nextSeq
  conserved : w.engine.stats.bytesAcked + w.engine.inFlight = w.engine.stats.bytesSent
  highestAcked : ∀ h ∈ w.engine.highestAcked, ∃ s ∈ w.coveredSeqs, h ≤ s + next.toNat
  losses : w.engine.controller.2 ≤ w.lossesBefore + 1

/-- A segment fits the counters, and an acknowledgement covers no bytes, or (the number after
counting) all that is outstanding. -/
def Careful (next : Bool) (w : Watched K σ) : AckCall → Prop
  | .onSend bytes _ =>
      w.engine.nextSeq + 1 < 2 ^ 64 ∧ w.engine.stats.bytesSent + bytes.toNat < 2 ^ 64
  | .onAck ack now =>
      bytesOf (w.engine.covered ack.toNat) = 0 ∨
        (next = true ∧ ∀ s ∈ w.engine.outstanding, s.seq < ack.toNat) ∨
        ¬ w.engine.RttFits ack.toNat now
  | .onTimeout _ => True

/-- The books are right after each part of a run. -/
def SoundAlong (next : Bool) (w : Watched K σ) (calls : List AckCall) : Prop :=
  ∀ before later, calls = before ++ later → ∀ w' ∈ before.foldl (run ops) (some w), w'.Sound next

def CarefulAlong (next : Bool) (w : Watched K σ) (calls : List AckCall) : Prop :=
  Always (run ops) (fun s c => ∀ w' ∈ s, w'.Careful next c) (some w) calls

def Booked (next : Bool) (w : Watched K σ) : Prop :=
  Books next w.coveredSeqs w.lossesBefore w.engine.ledger

variable {ops} {next : Bool} {w w' : Watched K σ}

omit [Field K] [LinearOrder K] [FloorRing K] in
theorem Booked.sound (h : w.Booked next) : w.Sound next where
  inFlight := h.inFlight
  outstanding := ⟨w.coveredSeqs, h.seqs⟩
  conserved := h.conserved
  highestAcked := h.highestAcked
  losses := h.losses.trans (Nat.add_le_add_left (Bool.toNat_le _) _)

omit [FloorRing K] in
theorem booked_new (controller : σ) (mss : UInt64) : (new controller mss : Watched K σ).Booked next where
  seqs := rfl
  inFlight := rfl
  conserved := rfl
  highestAcked h hh := by cases hh
  losses := Nat.le_refl 0
  nextSeq_lt := Nat.two_pow_pos 64
  bytesSent_lt := Nat.two_pow_pos 64

theorem Booked.onSend (h : w.Booked next) {bytes : UInt64} {now : ℕ}
    (hcareful : w.Careful next (.onSend bytes now)) :
    Booked next { w with engine := (w.engine.onSend ops.counting bytes now).2 } := by
  obtain ⟨hseq, hbytes⟩ := hcareful
  have hinFlight : w.engine.inFlight = bytesOf w.engine.outstanding := h.inFlight
  have hconserved : w.engine.stats.bytesAcked + w.engine.inFlight = w.engine.stats.bytesSent :=
    h.conserved
  have hwrapIn : wrappingAdd w.engine.inFlight bytes.toNat = w.engine.inFlight + bytes.toNat :=
    Nat.mod_eq_of_lt (by omega)
  have hwrapSent : wrappingAdd w.engine.stats.bytesSent bytes.toNat =
      w.engine.stats.bytesSent + bytes.toNat := Nat.mod_eq_of_lt hbytes
  have hwrapSeq : wrappingAdd w.engine.nextSeq 1 = w.engine.nextSeq + 1 := Nat.mod_eq_of_lt hseq
  constructor
  · show w.coveredSeqs ++ (w.engine.outstanding ++ [_]).map _ =
      range (wrappingAdd w.engine.nextSeq 1)
    rw [hwrapSeq, range_succ, map_append, ← append_assoc]
    exact congrArg (· ++ [w.engine.nextSeq]) h.seqs
  · show wrappingAdd w.engine.inFlight bytes.toNat = bytesOf (w.engine.outstanding ++ [_])
    rw [hwrapIn, bytesOf_append, hinFlight]
    rfl
  · show w.engine.stats.bytesAcked + wrappingAdd w.engine.inFlight bytes.toNat =
      wrappingAdd w.engine.stats.bytesSent bytes.toNat
    omega
  · exact h.highestAcked
  · exact h.losses
  · show wrappingAdd w.engine.nextSeq 1 < 2 ^ 64
    omega
  · show wrappingAdd w.engine.stats.bytesSent bytes.toNat < 2 ^ 64
    omega

theorem careful_of_sound_onSend (h : w.Booked next) {bytes : UInt64} {now : ℕ}
    (hsound : Sound next { w with engine := (w.engine.onSend ops.counting bytes now).2 }) :
    w.Careful next (.onSend bytes now) := by
  have hinFlight : w.engine.inFlight = bytesOf w.engine.outstanding := h.inFlight
  have hconserved : w.engine.stats.bytesAcked + w.engine.inFlight = w.engine.stats.bytesSent :=
    h.conserved
  have hseq : w.engine.nextSeq < 2 ^ 64 := h.nextSeq_lt
  have hwrapIn : wrappingAdd w.engine.inFlight bytes.toNat =
      bytesOf w.engine.outstanding + bytes.toNat := hsound.inFlight.trans (bytesOf_append _ _)
  have hconserved' : w.engine.stats.bytesAcked + wrappingAdd w.engine.inFlight bytes.toNat =
      wrappingAdd w.engine.stats.bytesSent bytes.toNat := hsound.conserved
  have hsent : wrappingAdd w.engine.stats.bytesSent bytes.toNat < 2 ^ 64 :=
    Nat.mod_lt _ (by decide)
  refine ⟨?_, by omega⟩
  by_contra hover
  have hzero : wrappingAdd w.engine.nextSeq 1 = 0 := by
    have htop : w.engine.nextSeq + 1 = 2 ^ 64 := by omega
    rw [wrappingAdd, htop, Nat.mod_self]
  have hsuffix : map Outstanding.seq (w.engine.outstanding ++ [⟨w.engine.nextSeq, bytes, now⟩])
      <:+ range (wrappingAdd w.engine.nextSeq 1) := hsound.outstanding
  rw [hzero, range_zero, suffix_nil, map_append] at hsuffix
  exact cons_ne_nil _ _ (append_eq_nil_iff.mp hsuffix).2

theorem Booked.onAck (h : w.Booked next) {ack now : ℕ} {r : AckOutcome × AckEngine K (σ × ℕ)}
    (hack : w.engine.onAck ops.counting ack now = some r)
    (htop : 0 < bytesOf (w.engine.covered ack) →
      ∃ s ∈ (w.acked ack r).coveredSeqs, w.engine.nextSeq ≤ s + next.toNat) :
    (w.acked ack r).Booked next := by
  have hpopped := Books.popCovered h ack
  have hnewly := Books.newlyAcked h ack
  rcases AckEngine.ledger_onAck ops hack with ⟨hnew, hledger⟩ | ⟨hnone, hledger⟩
  · have hlosses : r.2.controller.2 = w.engine.controller.2 := congrArg Ledger.losses hledger
    have hcount : (w.acked ack r).lossesBefore = w.engine.controller.2 := by
      rw [acked, if_pos (AckEngine.onAck_newlyAcked hack ▸ hnew), hlosses]
    rw [Booked, hcount]
    show Books next _ _ r.2.ledger
    rw [hledger]
    exact
      { hpopped with
        highestAcked := by
          rintro n ⟨⟩
          exact htop (hnewly ▸ hnew)
        losses := Nat.le_refl _ }
  · have hcount : (w.acked ack r).lossesBefore = w.lossesBefore := by
      rw [acked, if_neg (by rw [AckEngine.onAck_newlyAcked hack, hnone]; exact Nat.lt_irrefl 0)]
    rw [Booked, hcount]
    show Books next _ _ r.2.ledger
    rcases hledger with hsame | hlost
    · rw [hsame]
      exact hpopped
    · rw [hlost]
      exact hpopped.lost

theorem Booked.careful_onAck_iff (ops : ControllerOps K σ) (h : w.Booked next) (ack : UInt64)
    (now : ℕ) :
    w.Careful next (.onAck ack now) ↔
      ∀ r ∈ w.engine.onAck ops.counting ack.toNat now,
        0 < bytesOf (w.engine.covered ack.toNat) →
          ∃ s ∈ (w.acked ack.toNat r).coveredSeqs, w.engine.nextSeq ≤ s + next.toNat := by
  by_cases hnone : bytesOf (w.engine.covered ack.toNat) = 0
  · exact ⟨fun _ _ _ hpos => absurd hnone (Nat.ne_of_gt hpos), fun _ => .inl hnone⟩
  have hpos : 0 < bytesOf (w.engine.covered ack.toNat) := Nat.pos_of_ne_zero hnone
  have hreturns : (w.engine.onAck ops.counting ack.toNat now).isSome = true ↔
      w.engine.RttFits ack.toNat now :=
    AckEngine.onAck_isSome_iff (by rw [Books.newlyAcked h]; exact hpos)
  by_cases hfits : w.engine.RttFits ack.toNat now
  · obtain ⟨r, hr⟩ := Option.isSome_iff_exists.mp (hreturns.mpr hfits)
    have hseqs := (Books.popCovered h ack.toNat).seqs
    have hsome : 0 < w.engine.nextSeq := by
      rw [Nat.pos_iff_ne_zero]
      intro hzero
      have hlength := congrArg length hseqs
      have hledger : (w.engine.popCovered ack.toNat).ledger.nextSeq = 0 := hzero
      rw [hledger, length_append, length_append, length_map, range_zero,
        length_nil] at hlength
      have hcovered : w.engine.covered ack.toNat = [] := length_eq_zero_iff.mp (by omega)
      rw [hcovered] at hpos
      exact Nat.lt_irrefl 0 hpos
    have hall : ((w.engine.popCovered ack.toNat).outstanding.map (·.seq) = [] ↔
        ∀ s ∈ w.engine.outstanding, s.seq < ack.toNat) := by
      simp [AckEngine.popCovered]
    have htop : _ ↔ next = true ∧ _ := Books.top_iff hseqs hsome
    rw [Careful, hr]
    simp only [hnone, hfits, not_true_eq_false, or_false, false_or, ← hall, Option.mem_def,
      Option.some.injEq, forall_eq', hpos, forall_true_left]
    exact htop.symm
  · have hpanics : w.engine.onAck ops.counting ack.toNat now = none :=
      Option.not_isSome_iff_eq_none.mp fun h => hfits (hreturns.mp h)
    rw [hpanics]
    exact ⟨fun _ r hr => absurd hr (Option.not_mem_none r), fun _ => .inr (.inr hfits)⟩

theorem Booked.step (h : w.Booked next) {c : AckCall} (hcareful : w.Careful next c)
    (hstep : w.step ops c = some w') : w'.Booked next := by
  cases c with
  | onSend bytes now =>
      cases hstep
      exact h.onSend hcareful
  | onAck ack now =>
      obtain ⟨r, hr, rfl⟩ := Option.map_eq_some_iff.mp hstep
      exact h.onAck hr ((h.careful_onAck_iff ops ack now).mp hcareful r hr)
  | onTimeout now =>
      cases hstep
      rw [Booked, AckEngine.ledger_onTimeout]
      exact Books.lost h

theorem Booked.careful_of_sound (h : w.Booked next) {c : AckCall}
    (hsound : ∀ w' ∈ w.step ops c, w'.Sound next) : w.Careful next c := by
  cases c with
  | onSend bytes now => exact careful_of_sound_onSend h (hsound _ rfl)
  | onAck ack now =>
      refine (h.careful_onAck_iff ops ack now).mpr fun r hr hpos => ?_
      have hmem : w.acked ack.toNat r ∈ w.step ops (.onAck ack now) := Option.mem_map_of_mem _ hr
      apply (hsound _ hmem).highestAcked
      rcases AckEngine.ledger_onAck ops hr with ⟨-, hledger⟩ | ⟨hnone, -⟩
      · exact congrArg Ledger.highestAcked hledger
      · rw [Books.newlyAcked h] at hnone
        omega
  | onTimeout now => trivial

theorem Booked.along_iff (h : w.Booked next) (calls : List AckCall) :
    w.SoundAlong ops next calls ↔ w.CarefulAlong ops next calls := by
  let sound : Option (Watched K σ) → Prop := fun s => ∀ w ∈ s, w.Sound next
  let booked : Option (Watched K σ) → Prop := fun s => ∀ w ∈ s, w.Booked next
  have hstart : booked (some w) := by
    rintro w ⟨⟩
    exact h
  have hsound : ∀ s, booked s → sound s := fun s hs w hw => (hs w hw).sound
  have hkept : ∀ s c, booked s → (∀ w ∈ s, w.Careful next c) → booked (run ops s c) := by
    intro s c hs hcareful w' hw'
    obtain ⟨w, hw, hstep⟩ := Option.bind_eq_some_iff.mp hw'
    exact (hs w hw).step (hcareful w hw) hstep
  have hback : ∀ s c, booked s → sound (run ops s c) → ∀ w ∈ s, w.Careful next c := by
    intro s c hs hrun w hw
    have hnext : ∀ w' ∈ w.step ops c, w'.Sound next := fun w' hw' =>
      hrun w' (Option.bind_eq_some_iff.mpr ⟨w, hw, hw'⟩)
    exact (hs w hw).careful_of_sound hnext
  exact forall_before_iff_of_invariant booked hsound hkept hback hstart calls

/-- An engine of one of the three laws. -/
def ofAlgorithm [IsStrictOrderedRing K] (algorithm : CcAlgorithm) (mss : UInt64) :
    Watched K (CongestionController K) :=
  new (.new algorithm (max mss 1)) mss

end Watched

/-- The books of an engine are right along a run exactly if its counters do not wrap and each
acknowledgement covers no bytes, or (the number after counting) all that is outstanding. -/
theorem ack_books_iff [IsStrictOrderedRing K] (next : Bool) (cbrt : K → K) (algorithm : CcAlgorithm)
    (mss : UInt64) (calls : List AckCall) :
    (Watched.ofAlgorithm algorithm mss).SoundAlong (CongestionController.ops cbrt) next calls ↔
      (Watched.ofAlgorithm algorithm mss).CarefulAlong (CongestionController.ops cbrt) next calls :=
  (Watched.booked_new _ mss).along_iff calls

/-- A window that is lost, found by two duplicates too many and a timeout, and acknowledged whole. -/
theorem ack_books_recovered :
    (Watched.ofAlgorithm .bbr 1400).SoundAlong (CongestionController.ops fun x : ℚ => x) true
      [.onSend 1000 0, .onSend 400 0, .onAck 0 1, .onAck 0 2, .onAck 0 3, .onAck 0 4,
        .onTimeout 1000000000, .onAck 9 2000000000] := by
  refine (ack_books_iff true _ .bbr 1400 _).mpr ?_
  refine ⟨?_, ?_, ?_, ?_, ?_, ?_, ?_, ?_, trivial⟩
  · rintro w ⟨⟩
    exact ⟨by decide, by decide⟩
  · rintro w ⟨⟩
    exact ⟨by decide, by decide⟩
  · rintro w ⟨⟩
    exact .inl rfl
  · rintro w ⟨⟩
    exact .inl rfl
  · rintro w ⟨⟩
    exact .inl rfl
  · rintro w ⟨⟩
    exact .inl rfl
  · exact fun _ _ => trivial
  · rintro w ⟨⟩
    exact .inr (.inl ⟨rfl, by decide⟩)

/-- Of two segments the first is acknowledged. -/
def oneOfTwo : List AckCall := [.onSend 1000 0, .onSend 1000 0, .onAck 1 50000000]

/-- Two is then the highest number acknowledged, in either way of counting. -/
theorem ack_books_not_oneOfTwo :
    ¬ (Watched.ofAlgorithm .newReno 1400).SoundAlong (CongestionController.ops fun x : ℚ => x) false
        oneOfTwo ∧
      ¬ (Watched.ofAlgorithm .newReno 1400).SoundAlong (CongestionController.ops fun x : ℚ => x)
        true oneOfTwo := by
  have hend : (oneOfTwo.foldl (Watched.run (CongestionController.ops fun x : ℚ => x))
      (some (Watched.ofAlgorithm .newReno 1400))).map
        (fun w => (w.engine.highestAcked, w.coveredSeqs)) = some (some 2, [0]) := by
    decide +kernel
  obtain ⟨w, hw, hbooks⟩ := Option.map_eq_some_iff.mp hend
  obtain ⟨hhighest, hcovered⟩ := Prod.mk.inj hbooks
  have htop : ∀ next, ¬ (Watched.ofAlgorithm .newReno 1400).SoundAlong
      (CongestionController.ops fun x : ℚ => x) next oneOfTwo := by
    intro next h
    obtain ⟨s, hs, hle⟩ := (h oneOfTwo [] rfl w hw).highestAcked 2 hhighest
    rw [hcovered, mem_singleton] at hs
    rw [hs] at hle
    have hone := Bool.toNat_le next
    omega
  exact ⟨htop false, htop true⟩

end Vantablack.Cc
