import Vantablack.Layers.Kem
import Vantablack.Lib.Runs
import Vantablack.Lib.Table

/-!
The bandwidth vouchers of `net/bandwidth_voucher.rs`, redeemed and spent at a relay by calls that
run at the same time. A step of a call is one access to one of the two tables; the entry that
`consume_bandwidth` holds is looked at, lowered and dropped in one step.

SHA-256 is a parameter of which nothing is assumed, and two vouchers may well have one nullifier:
the quota is not part of it. What has happened so far is written down in a log.
-/

namespace Vantablack.Net

open Lib Layers List

abbrev VoucherNullifier := Octets 32

structure BandwidthVoucher where
  tokenPreimage : Octets 32
  epochSlot : UInt64
  quotaMb : UInt32
  proofHash : Octets 32

namespace BandwidthVoucher

def computeNullifier (sha256 : Bytes → Octets 32) (v : BandwidthVoucher) : VoucherNullifier :=
  sha256 (utf8 "VANTABLACK_BANDWIDTH_NULLIFIER_V1" ++
    (toBeBytes 8 v.epochSlot.toNat ++ v.tokenPreimage.toList))

end BandwidthVoucher

structure RelayBandwidthBank where
  activeVouchers : Table VoucherNullifier UInt32
  exhaustedNullifiers : Table VoucherNullifier UInt64

namespace RelayBandwidthBank

def new : RelayBandwidthBank := ⟨∅, ∅⟩

end RelayBandwidthBank

namespace Voucher

/-- What a call that has not returned does next. -/
inductive Call where
  | checkExhausted (n : VoucherNullifier) (quotaMb : UInt32)
  | checkActive (n : VoucherNullifier) (quotaMb : UInt32)
  | insertActive (n : VoucherNullifier) (quotaMb : UInt32)
  | removeActive (n : VoucherNullifier)
  | insertExhausted (n : VoucherNullifier)
  deriving DecidableEq

inductive Event where
  | presented (n : VoucherNullifier) (quotaMb : UInt32)
  | overflowed
  | refused (n : VoucherNullifier) (message : String)
  | granted (n : VoucherNullifier) (quotaMb : UInt32)
  | admitted (n : VoucherNullifier) (consumedMb : UInt32)
  | rejected (n : VoucherNullifier) (consumedMb : UInt32)
  | exhausted (n : VoucherNullifier)
  | panicked (n : VoucherNullifier)
  deriving DecidableEq

/-- A relay with the calls that are running. The newest event comes first. -/
structure Relay where
  bank : RelayBandwidthBank
  calls : List Call
  log : List Event

/-- A clock is what `SystemTime::now()` reads in seconds, or `none` before the epoch. -/
inductive Action where
  | redeem (v : BandwidthVoucher) (clock : Option UInt64)
  | consume (n : VoucherNullifier) (consumedMb : UInt32)
  | resume (i : ℕ) (clock : Option UInt64)

def init : Relay := ⟨.new, [], []⟩

/-- How the calls of a relay are compiled: the hash, and whether an overflow is checked. -/
structure Build where
  sha256 : Bytes → Octets 32
  overflowChecks : Bool

variable (b : Build)

/-- The first step of `redeem_voucher`, up to its first access to a table. A sum that overflows
panics or wraps. -/
def redeemVoucher (s : Relay) (v : BandwidthVoucher) (clock : Option UInt64) : Relay :=
  let n := v.computeNullifier b.sha256
  let currentSlot := clock.getD 0 / 3600
  let log := .presented n v.quotaMb :: s.log
  let overflow : Bool := 2 ^ 64 ≤ v.epochSlot.toNat + 24
  let log := if overflow then .overflowed :: log else log
  if overflow && b.overflowChecks then { s with log := .panicked n :: log }
  else if v.epochSlot + 24 < currentSlot then
    { s with log := .refused n "voucher expired (outside 24-hour validity window)" :: log }
  else { s with calls := s.calls ++ [.checkExhausted n v.quotaMb], log := log }

/-- The first step of `consume_bandwidth`, with the entry held. A call that is still to remove the
entry returns `true` later on. -/
def consumeBandwidth (s : Relay) (n : VoucherNullifier) (consumedMb : UInt32) : Relay :=
  match s.bank.activeVouchers.lookup n with
  | some entry =>
      if consumedMb ≤ entry then
        let entry := entry - consumedMb
        { bank := { s.bank with activeVouchers := s.bank.activeVouchers.insert n entry }
          calls := if entry = 0 then s.calls ++ [.removeActive n] else s.calls
          log := .admitted n consumedMb :: s.log }
      else { s with log := .rejected n consumedMb :: s.log }
  | none => { s with log := .rejected n consumedMb :: s.log }

/-- The next step of the `i`-th call. -/
def resume (s : Relay) (i : ℕ) (clock : Option UInt64) : Relay :=
  match s.calls[i]? with
  | some (.checkExhausted n quotaMb) =>
      if n ∈ s.bank.exhaustedNullifiers then
        { s with
          calls := s.calls.eraseIdx i
          log := .refused n "voucher nullifier already exhausted (double-spend rejected)" :: s.log }
      else { s with calls := s.calls.set i (.checkActive n quotaMb) }
  | some (.checkActive n quotaMb) =>
      if n ∈ s.bank.activeVouchers then
        { s with
          calls := s.calls.eraseIdx i
          log := .refused n "voucher nullifier already active in bank" :: s.log }
      else { s with calls := s.calls.set i (.insertActive n quotaMb) }
  | some (.insertActive n quotaMb) =>
      { bank := { s.bank with activeVouchers := s.bank.activeVouchers.insert n quotaMb }
        calls := s.calls.eraseIdx i
        log := .granted n quotaMb :: s.log }
  | some (.removeActive n) =>
      { s with
        bank := { s.bank with activeVouchers := s.bank.activeVouchers.erase n }
        calls := s.calls.set i (.insertExhausted n) }
  | some (.insertExhausted n) =>
      match clock with
      | some now =>
          { bank := { s.bank with exhaustedNullifiers := s.bank.exhaustedNullifiers.insert n now }
            calls := s.calls.eraseIdx i
            log := .exhausted n :: s.log }
      -- the `unwrap` of the time panics
      | none => { s with calls := s.calls.eraseIdx i, log := .panicked n :: s.log }
  | none => s

def step (s : Relay) : Action → Relay
  | .redeem v clock => redeemVoucher b s v clock
  | .consume n consumedMb => consumeBandwidth s n consumedMb
  | .resume i clock => resume s i clock

/-! ### What is asked of a relay -/

/-- The megabytes admitted under a nullifier. -/
def admittedMb (n : VoucherNullifier) : List Event → ℕ
  | [] => 0
  | .admitted m consumedMb :: log =>
      if m = n then consumedMb.toNat + admittedMb n log else admittedMb n log
  | _ :: log => admittedMb n log

/-- The largest quota of a voucher presented for a nullifier. -/
def largestQuota (n : VoucherNullifier) : List Event → ℕ
  | [] => 0
  | .presented m quotaMb :: log =>
      if m = n then max quotaMb.toNat (largestQuota n log) else largestQuota n log
  | _ :: log => largestQuota n log

/-- A call under `n` has been admitted. -/
def Event.Admits (n : VoucherNullifier) : Event → Prop
  | .granted m _ => m = n
  | .admitted m _ => m = n
  | _ => False

instance (n : VoucherNullifier) (e : Event) : Decidable (e.Admits n) := by
  cases e <;> unfold Event.Admits <;> infer_instance

structure Sound (log : List Event) : Prop where
  within_quota : ∀ n, admittedMb n log ≤ largestQuota n log
  no_replay : log.Pairwise fun later earlier => ∀ n, earlier = .exhausted n → ¬ later.Admits n
  no_overflow : .overflowed ∉ log

/-- The condition on a step. The epoch of a voucher leaves room for the 24 hours that are added to
it. When a quota is entered, its nullifier is not exhausted or about to be, and the quota still fits
with what has been admitted already. -/
def Careful (s : Relay) : Action → Prop
  | .redeem v _ => v.epochSlot.toNat + 24 < 2 ^ 64
  | .consume _ _ => True
  | .resume i _ => ∀ n quotaMb, s.calls[i]? = some (.insertActive n quotaMb) →
      n ∉ s.bank.exhaustedNullifiers ∧ .insertExhausted n ∉ s.calls ∧
        admittedMb n s.log + quotaMb.toNat ≤ largestQuota n s.log

/-! ### The invariant -/

/-- The nullifier and the quota of a call that is to enter one. -/
def Call.redeeming : Call → Option (VoucherNullifier × UInt32)
  | .checkExhausted n quotaMb | .checkActive n quotaMb | .insertActive n quotaMb =>
      some (n, quotaMb)
  | _ => none

/-- What holds while every step is careful. -/
structure Kept (s : Relay) : Prop where
  sound : Sound s.log
  credit : ∀ n left, s.bank.activeVouchers.lookup n = some left →
    admittedMb n s.log + left.toNat ≤ largestQuota n s.log
  exhausted : ∀ n, .exhausted n ∈ s.log ↔ n ∈ s.bank.exhaustedNullifiers
  not_active : ∀ n, n ∈ s.bank.exhaustedNullifiers ∨ .insertExhausted n ∈ s.calls →
    n ∉ s.bank.activeVouchers
  pending : ∀ c ∈ s.calls, ∀ n quotaMb, c.redeeming = some (n, quotaMb) →
    quotaMb.toNat ≤ largestQuota n s.log
  unspent : ∀ n, n ∉ s.bank.activeVouchers → n ∉ s.bank.exhaustedNullifiers →
    .insertExhausted n ∉ s.calls → .panicked n ∉ s.log → admittedMb n s.log = 0

theorem kept_init : Kept init where
  sound := ⟨fun _ => le_rfl, .nil, not_mem_nil⟩
  credit _ _ h := by cases h
  exhausted _ := iff_of_false not_mem_nil (AList.notMem_empty _)
  not_active _ _ := AList.notMem_empty _
  pending _ h := absurd h not_mem_nil
  unspent _ _ _ _ _ := rfl

section Calls

variable {calls : List Call} {i : ℕ} {c c' x : Call}

theorem mem_set_iff (h : calls[i]? = some c) (hx : x ≠ c) :
    x ∈ calls.set i c' ↔ x = c' ∨ x ∈ calls := by
  obtain ⟨hi, hget⟩ := List.getElem?_eq_some_iff.mp h
  rw [mem_iff_getElem?, mem_iff_getElem?]
  constructor
  · rintro ⟨j, hj⟩
    rw [getElem?_set] at hj
    split at hj
    · exact Or.inl (Option.some.inj hj).symm
    · exact Or.inr ⟨j, hj⟩
  · rintro (rfl | ⟨j, hj⟩)
    · exact ⟨i, getElem?_set_self hi⟩
    · refine ⟨j, ?_⟩
      rw [getElem?_set_ne, hj]
      rintro rfl
      exact hx (Option.some.inj (hj.symm.trans h))

theorem mem_eraseIdx_iff (h : calls[i]? = some c) (hx : x ≠ c) :
    x ∈ calls.eraseIdx i ↔ x ∈ calls := by
  rw [mem_eraseIdx_iff_getElem?, mem_iff_getElem?]
  constructor
  · rintro ⟨j, -, hj⟩
    exact ⟨j, hj⟩
  · rintro ⟨j, hj⟩
    refine ⟨j, ?_, hj⟩
    rintro rfl
    exact hx (Option.some.inj (hj.symm.trans h))

end Calls

/-- An event that neither admits nor ends anything. -/
structure Event.Quiet (e : Event) : Prop where
  admittedMb : ∀ n log, admittedMb n (e :: log) = admittedMb n log
  largestQuota : ∀ n log, largestQuota n log ≤ largestQuota n (e :: log)
  not_exhausted : ∀ n, e ≠ .exhausted n
  not_admits : ∀ n, ¬ e.Admits n
  no_overflow : e ≠ .overflowed

theorem quiet_presented (n : VoucherNullifier) (quotaMb : UInt32) :
    (Event.presented n quotaMb).Quiet where
  admittedMb _ _ := rfl
  largestQuota m log := by
    rw [largestQuota]
    split
    · exact le_max_right _ _
    · exact le_rfl
  not_exhausted _ h := by cases h
  not_admits _ h := h
  no_overflow h := by cases h

theorem quiet_refused (n : VoucherNullifier) (message : String) :
    (Event.refused n message).Quiet :=
  ⟨fun _ _ => rfl, fun _ _ => le_rfl, fun _ h => (by cases h), fun _ h => h, fun h => (by cases h)⟩

theorem quiet_rejected (n : VoucherNullifier) (consumedMb : UInt32) :
    (Event.rejected n consumedMb).Quiet :=
  ⟨fun _ _ => rfl, fun _ _ => le_rfl, fun _ h => (by cases h), fun _ h => h, fun h => (by cases h)⟩

theorem quiet_panicked (n : VoucherNullifier) : (Event.panicked n).Quiet :=
  ⟨fun _ _ => rfl, fun _ _ => le_rfl, fun _ h => (by cases h), fun _ h => h, fun h => (by cases h)⟩

namespace Sound

variable {log : List Event} {e : Event} {n : VoucherNullifier}

theorem quiet (h : Sound log) (he : e.Quiet) : Sound (e :: log) where
  within_quota n := by
    rw [he.admittedMb]
    exact (h.within_quota n).trans (he.largestQuota n log)
  no_replay := pairwise_cons.mpr ⟨fun _ _ n _ => he.not_admits n, h.no_replay⟩
  no_overflow hmem :=
    (mem_cons.mp hmem).elim (fun heq => he.no_overflow heq.symm) h.no_overflow

end Sound

namespace Kept

variable {s : Relay} {e : Event}

theorem quiet (h : Kept s) (he : e.Quiet) : Kept { s with log := e :: s.log } where
  sound := h.sound.quiet he
  credit n left hleft := by
    rw [he.admittedMb]
    exact (h.credit n left hleft).trans (he.largestQuota n s.log)
  exhausted n := by
    rw [← h.exhausted, mem_cons]
    exact or_iff_right (he.not_exhausted n).symm
  not_active := h.not_active
  pending c hc n quotaMb hcall := (h.pending c hc n quotaMb hcall).trans (he.largestQuota n s.log)
  unspent n hactive hexhausted hcalls hlog := by
    rw [he.admittedMb]
    exact h.unspent n hactive hexhausted hcalls fun hmem => hlog (mem_cons_of_mem _ hmem)

theorem withCalls (h : Kept s) {calls : List Call}
    (hwindow : ∀ n, .insertExhausted n ∈ calls ↔ .insertExhausted n ∈ s.calls)
    (hpending : ∀ c ∈ calls, ∀ n quotaMb, c.redeeming = some (n, quotaMb) →
      quotaMb.toNat ≤ largestQuota n s.log) :
    Kept { s with calls := calls } where
  sound := h.sound
  credit := h.credit
  exhausted := h.exhausted
  not_active n hn := h.not_active n (hn.imp_right (hwindow n).mp)
  pending := hpending
  unspent n hactive hexhausted hcalls hlog :=
    h.unspent n hactive hexhausted (fun hmem => hcalls ((hwindow n).mpr hmem)) hlog

theorem eraseIdx (h : Kept s) {i : ℕ} {c : Call} (hc : s.calls[i]? = some c)
    (hne : ∀ n, .insertExhausted n ≠ c) : Kept { s with calls := s.calls.eraseIdx i } :=
  h.withCalls (fun n => mem_eraseIdx_iff hc (hne n)) fun c hcall =>
    h.pending c (mem_of_mem_eraseIdx hcall)

theorem advance (h : Kept s) {i : ℕ} {c c' : Call} (hc : s.calls[i]? = some c)
    (hne : ∀ n, .insertExhausted n ≠ c) (hne' : ∀ n, .insertExhausted n ≠ c')
    (hsame : c'.redeeming = c.redeeming) : Kept { s with calls := s.calls.set i c' } := by
  refine h.withCalls (fun n => ?_) fun x hx n quotaMb hcall => ?_
  · rw [mem_set_iff hc (hne n), or_iff_right (hne' n)]
  · obtain hold | rfl := mem_or_eq_of_mem_set hx
    · exact h.pending x hold n quotaMb hcall
    · exact h.pending c (mem_of_getElem? hc) n quotaMb (hsame.symm.trans hcall)

theorem start (h : Kept s) {c : Call} (hne : ∀ n, .insertExhausted n ≠ c)
    (hpending : ∀ n quotaMb, c.redeeming = some (n, quotaMb) →
      quotaMb.toNat ≤ largestQuota n s.log) : Kept { s with calls := s.calls ++ [c] } := by
  refine h.withCalls (fun n => ?_) fun x hx => ?_
  · rw [mem_append, mem_singleton]
    exact or_iff_left (hne n)
  · obtain hold | hnew := mem_append.mp hx
    · exact h.pending x hold
    · exact mem_singleton.mp hnew ▸ hpending

theorem redeemVoucher (h : Kept s) {v : BandwidthVoucher} (clock : Option UInt64)
    (hroom : v.epochSlot.toNat + 24 < 2 ^ 64) : Kept (redeemVoucher b s v clock) := by
  have hoverflow : decide (2 ^ 64 ≤ v.epochSlot.toNat + 24) = false :=
    decide_eq_false (not_le.mpr hroom)
  have hpresented := h.quiet (quiet_presented (v.computeNullifier b.sha256) v.quotaMb)
  rw [Voucher.redeemVoucher]
  simp only [hoverflow, Bool.false_and, Bool.false_eq_true, if_false]
  split
  · exact hpresented.quiet (quiet_refused _ _)
  · refine hpresented.start (fun n hn => by cases hn) fun n quotaMb hcall => ?_
    cases hcall
    rw [largestQuota, if_pos rfl]
    exact le_max_left _ _

theorem spend (h : Kept s) {n : VoucherNullifier} {entry consumedMb : UInt32}
    (hentry : s.bank.activeVouchers.lookup n = some entry) (hle : consumedMb ≤ entry) :
    Kept { s with
      bank := { s.bank with
        activeVouchers := s.bank.activeVouchers.insert n (entry - consumedMb) }
      log := .admitted n consumedMb :: s.log } := by
  have hmem : n ∈ s.bank.activeVouchers := AList.lookup_isSome.mp (Option.isSome_of_eq_some hentry)
  have hcredit := h.credit n entry hentry
  have hleft : (entry - consumedMb).toNat = entry.toNat - consumedMb.toNat :=
    UInt32.toNat_sub_of_le _ _ hle
  have hle' : consumedMb.toNat ≤ entry.toNat := UInt32.le_iff_toNat_le.mp hle
  have hkey : ∀ m, m ∈ s.bank.activeVouchers.insert n (entry - consumedMb) ↔
      m ∈ s.bank.activeVouchers := by
    intro m
    rw [AList.mem_insert]
    refine or_iff_right_of_imp ?_
    rintro rfl
    exact hmem
  refine ⟨⟨fun m => ?_, ?_, ?_⟩, fun m left hlookup => ?_, fun m => ?_, fun m hm => ?_, h.pending,
    fun m hactive => ?_⟩
  · rw [admittedMb]
    split
    · rename_i heq
      subst heq
      exact (by omega : consumedMb.toNat + admittedMb n s.log ≤ largestQuota n s.log)
    · exact h.sound.within_quota m
  · refine pairwise_cons.mpr ⟨?_, h.sound.no_replay⟩
    rintro _ hevent m rfl hadmits
    obtain rfl : n = m := hadmits
    exact h.not_active n (Or.inl ((h.exhausted n).mp hevent)) hmem
  · exact fun hevent => (mem_cons.mp hevent).elim (fun heq => by cases heq) h.sound.no_overflow
  · rcases Table.lookup_insert_eq_some.mp hlookup with ⟨rfl, rfl⟩ | ⟨hne, hold⟩
    · rw [admittedMb, if_pos rfl]
      exact (by omega : consumedMb.toNat + admittedMb m s.log + (entry - consumedMb).toNat ≤
        largestQuota m s.log)
    · rw [admittedMb, if_neg (Ne.symm hne)]
      exact h.credit m left hold
  · rw [← h.exhausted, mem_cons]
    exact or_iff_right fun heq => by cases heq
  · exact fun hactive => h.not_active m hm ((hkey m).mp hactive)
  · intro hexhausted hcalls hlog
    have hactive' : m ∉ s.bank.activeVouchers := fun hm => hactive ((hkey m).mpr hm)
    have hne : n ≠ m := fun heq => hactive' (heq ▸ hmem)
    rw [admittedMb, if_neg hne]
    exact h.unspent m hactive' hexhausted hcalls fun hm => hlog (mem_cons_of_mem _ hm)

theorem consumeBandwidth (h : Kept s) (n : VoucherNullifier) (consumedMb : UInt32) :
    Kept (consumeBandwidth s n consumedMb) := by
  rw [Voucher.consumeBandwidth]
  cases hentry : s.bank.activeVouchers.lookup n with
  | none => exact h.quiet (quiet_rejected n consumedMb)
  | some entry =>
      dsimp only
      split
      · rename_i hle
        have hspent := h.spend hentry hle
        split
        · exact hspent.start (fun m hm => by cases hm) fun m quotaMb hcall => by cases hcall
        · exact hspent
      · exact h.quiet (quiet_rejected n consumedMb)

theorem grant (h : Kept s) {n : VoucherNullifier} {quotaMb : UInt32}
    (hexhausted : n ∉ s.bank.exhaustedNullifiers) (hwindow : .insertExhausted n ∉ s.calls)
    (hroom : admittedMb n s.log + quotaMb.toNat ≤ largestQuota n s.log) :
    Kept { s with
      bank := { s.bank with activeVouchers := s.bank.activeVouchers.insert n quotaMb }
      log := .granted n quotaMb :: s.log } := by
  refine ⟨⟨h.sound.within_quota, ?_, ?_⟩, fun m left hlookup => ?_, fun m => ?_, fun m hm => ?_,
    h.pending, fun m hactive hm hcalls hlog => ?_⟩
  · refine pairwise_cons.mpr ⟨?_, h.sound.no_replay⟩
    rintro _ hevent m rfl hadmits
    obtain rfl : n = m := hadmits
    exact hexhausted ((h.exhausted n).mp hevent)
  · exact fun hevent => (mem_cons.mp hevent).elim (fun heq => by cases heq) h.sound.no_overflow
  · rcases Table.lookup_insert_eq_some.mp hlookup with ⟨rfl, rfl⟩ | ⟨-, hold⟩
    · exact hroom
    · exact h.credit m left hold
  · rw [← h.exhausted, mem_cons]
    exact or_iff_right fun heq => by cases heq
  · rw [AList.mem_insert, not_or]
    refine ⟨?_, h.not_active m hm⟩
    rintro rfl
    exact hm.elim hexhausted hwindow
  · exact h.unspent m (fun hmem => hactive ((AList.mem_insert _).mpr (Or.inr hmem))) hm hcalls
      fun hmem => hlog (mem_cons_of_mem _ hmem)

theorem takeOut (h : Kept s) {i : ℕ} {n : VoucherNullifier}
    (hc : s.calls[i]? = some (.removeActive n)) :
    Kept { s with
      bank := { s.bank with activeVouchers := s.bank.activeVouchers.erase n }
      calls := s.calls.set i (.insertExhausted n) } := by
  have hcalls : ∀ x, x ≠ .removeActive n →
      (x ∈ s.calls.set i (.insertExhausted n) ↔ x = .insertExhausted n ∨ x ∈ s.calls) :=
    fun x hx => mem_set_iff hc hx
  refine ⟨h.sound, fun m left hlookup => ?_, h.exhausted, fun m hm => ?_,
    fun c hmem m quotaMb hcall => ?_, fun m hactive hexhausted hwindow hlog => ?_⟩
  · exact h.credit m left (Table.lookup_erase_eq_some.mp hlookup).2
  · rw [AList.mem_erase]
    rintro ⟨hne, hmem⟩
    refine h.not_active m (hm.imp_right fun hwindow => ?_) hmem
    refine ((hcalls _ (by simp)).mp hwindow).resolve_left fun heq => hne ?_
    cases heq
    rfl
  · obtain hold | rfl := mem_or_eq_of_mem_set hmem
    · exact h.pending c hold m quotaMb hcall
    · cases hcall
  · rw [hcalls _ (by simp), not_or] at hwindow
    have hne : m ≠ n := fun heq => hwindow.1 (heq ▸ rfl)
    refine h.unspent m (fun hmem => hactive ?_) hexhausted hwindow.2 hlog
    exact AList.mem_erase.mpr ⟨hne, hmem⟩

theorem exhaust (h : Kept s) {i : ℕ} {n : VoucherNullifier} (now : UInt64)
    (hc : s.calls[i]? = some (.insertExhausted n)) :
    Kept { bank := { s.bank with exhaustedNullifiers := s.bank.exhaustedNullifiers.insert n now }
           calls := s.calls.eraseIdx i
           log := .exhausted n :: s.log } := by
  have hwindow : .insertExhausted n ∈ s.calls := mem_of_getElem? hc
  refine ⟨⟨h.sound.within_quota, ?_, ?_⟩, h.credit, fun m => ?_, fun m hm => ?_,
    fun c hcall => h.pending c (mem_of_mem_eraseIdx hcall),
    fun m hactive hexhausted hcalls hlog => ?_⟩
  · exact pairwise_cons.mpr ⟨fun _ _ _ _ hadmits => hadmits, h.sound.no_replay⟩
  · exact fun hevent => (mem_cons.mp hevent).elim (fun heq => by cases heq) h.sound.no_overflow
  · rw [mem_cons, AList.mem_insert, h.exhausted, Event.exhausted.injEq]
  · rw [AList.mem_insert] at hm
    rcases hm with (rfl | hexhausted) | hcall
    · exact h.not_active m (Or.inr hwindow)
    · exact h.not_active m (Or.inl hexhausted)
    · exact h.not_active m (Or.inr (mem_of_mem_eraseIdx hcall))
  · rw [AList.mem_insert, not_or] at hexhausted
    have hne : Call.insertExhausted m ≠ .insertExhausted n := fun heq =>
      hexhausted.1 (Call.insertExhausted.inj heq)
    refine h.unspent m hactive hexhausted.2 (fun hmem => hcalls ?_)
      fun hmem => hlog (mem_cons_of_mem _ hmem)
    exact (mem_eraseIdx_iff hc hne).mpr hmem

theorem panic (h : Kept s) {i : ℕ} {n : VoucherNullifier}
    (hc : s.calls[i]? = some (.insertExhausted n)) :
    Kept { s with calls := s.calls.eraseIdx i, log := .panicked n :: s.log } := by
  have hq := h.quiet (quiet_panicked n)
  refine ⟨hq.sound, hq.credit, hq.exhausted, fun m hm => ?_,
    fun c hcall => h.pending c (mem_of_mem_eraseIdx hcall),
    fun m hactive hexhausted hcalls hlog => ?_⟩
  · exact h.not_active m (hm.imp_right mem_of_mem_eraseIdx)
  · rw [mem_cons, not_or] at hlog
    have hne : Call.insertExhausted m ≠ .insertExhausted n := fun heq =>
      hlog.1 (congrArg Event.panicked (Call.insertExhausted.inj heq))
    exact h.unspent m hactive hexhausted (fun hmem => hcalls ((mem_eraseIdx_iff hc hne).mpr hmem))
      hlog.2

theorem resume (h : Kept s) (i : ℕ) (clock : Option UInt64)
    (hcareful : Careful s (.resume i clock)) : Kept (resume s i clock) := by
  rw [Voucher.resume]
  cases hc : s.calls[i]? with
  | none => exact h
  | some c =>
      cases c with
      | checkExhausted n quotaMb =>
          dsimp only
          split
          · exact (h.eraseIdx hc fun m hm => by cases hm).quiet (quiet_refused n _)
          · exact h.advance hc (fun m hm => by cases hm) (fun m hm => by cases hm) rfl
      | checkActive n quotaMb =>
          dsimp only
          split
          · exact (h.eraseIdx hc fun m hm => by cases hm).quiet (quiet_refused n _)
          · exact h.advance hc (fun m hm => by cases hm) (fun m hm => by cases hm) rfl
      | insertActive n quotaMb =>
          obtain ⟨hexhausted, hwindow, hroom⟩ := hcareful n quotaMb hc
          have hreturned := h.eraseIdx hc fun m hm => by cases hm
          exact hreturned.grant hexhausted (fun hm => hwindow (mem_of_mem_eraseIdx hm)) hroom
      | removeActive n => exact h.takeOut hc
      | insertExhausted n =>
          cases clock with
          | none => exact h.panic hc
          | some now => exact h.exhaust now hc

theorem next (h : Kept s) (a : Action) (hcareful : Careful s a) : Kept (step b s a) := by
  cases a with
  | redeem v clock => exact h.redeemVoucher b clock hcareful
  | consume n consumedMb => exact h.consumeBandwidth n consumedMb
  | resume i clock => exact h.resume i clock hcareful

end Kept

/-! ### Runs -/

theorem kept_of_always {as : List Action} (h : Always (step b) Careful init as) :
    Kept (as.foldl (step b) init) :=
  Always.invariant Kept (fun _ a hs hcareful => hs.next b a hcareful) kept_init h

theorem Kept.careful_of_untouched {s : Relay} (h : Kept s) {i : ℕ} {n : VoucherNullifier}
    {quotaMb : UInt32} (clock : Option UInt64) (hc : s.calls[i]? = some (.insertActive n quotaMb))
    (hactive : n ∉ s.bank.activeVouchers) (hexhausted : n ∉ s.bank.exhaustedNullifiers)
    (hwindow : .insertExhausted n ∉ s.calls) (hlog : .panicked n ∉ s.log) :
    Careful s (.resume i clock) := by
  intro m q hm
  obtain ⟨rfl, rfl⟩ := Call.insertActive.inj (Option.some.inj (hc.symm.trans hm))
  have hspent := h.unspent n hactive hexhausted hwindow hlog
  have hquota := h.pending _ (mem_of_getElem? hc) n quotaMb rfl
  exact ⟨hexhausted, hwindow, by omega⟩

theorem Kept.not_sound_of_careless {s : Relay} (h : Kept s) {a : Action}
    (hcareless : ¬ Careful s a) :
    ∃ more, ¬ Sound ((a :: more).foldl (step b) s).log := by
  cases a with
  | redeem v clock =>
      have hoverflow : decide (2 ^ 64 ≤ v.epochSlot.toNat + 24) = true :=
        decide_eq_true (not_lt.mp hcareless)
      refine ⟨[], fun hsound => hsound.no_overflow ?_⟩
      rw [foldl_cons, foldl_nil, step, Voucher.redeemVoucher]
      simp only [hoverflow, Bool.true_and, if_true]
      split
      · exact mem_cons_of_mem _ mem_cons_self
      · split
        · exact mem_cons_of_mem _ mem_cons_self
        · exact mem_cons_self
  | consume n consumedMb => exact absurd trivial hcareless
  | resume i clock =>
      simp only [Careful, not_forall] at hcareless
      obtain ⟨n, quotaMb, hc, hcareless⟩ := hcareless
      have hnext : step b s (.resume i clock) =
          { bank := { s.bank with activeVouchers := s.bank.activeVouchers.insert n quotaMb }
            calls := s.calls.eraseIdx i
            log := .granted n quotaMb :: s.log } := by
        rw [step, Voucher.resume, hc]
      by_cases hexhausted : n ∈ s.bank.exhaustedNullifiers
      · refine ⟨[], fun hsound => ?_⟩
        rw [foldl_cons, foldl_nil, hnext] at hsound
        have hevent := (h.exhausted n).mpr hexhausted
        exact (pairwise_cons.mp hsound.no_replay).1 _ hevent n rfl rfl
      · by_cases hwindow : .insertExhausted n ∈ s.calls
        · -- the other call goes on, and then what was entered is spent
          rw [← mem_eraseIdx_iff hc (by simp)] at hwindow
          obtain ⟨j, hj⟩ := mem_iff_getElem?.mp hwindow
          refine ⟨[.resume j (some 0), .consume n 0], fun hsound => ?_⟩
          rw [foldl_cons, foldl_cons, foldl_cons, foldl_nil, hnext, step, step,
            Voucher.resume, hj] at hsound
          dsimp only at hsound
          rw [Voucher.consumeBandwidth, AList.lookup_insert] at hsound
          dsimp only at hsound
          rw [if_pos (UInt32.zero_le)] at hsound
          exact (pairwise_cons.mp hsound.no_replay).1 _ mem_cons_self n rfl rfl
        · have hroom : ¬ admittedMb n s.log + quotaMb.toNat ≤ largestQuota n s.log := fun hroom =>
            hcareless ⟨hexhausted, hwindow, hroom⟩
          refine ⟨[.consume n quotaMb], fun hsound => hroom ?_⟩
          rw [foldl_cons, foldl_cons, foldl_nil, hnext, step,
            Voucher.consumeBandwidth, AList.lookup_insert] at hsound
          dsimp only at hsound
          rw [if_pos (UInt32.le_refl quotaMb)] at hsound
          have hwithin := hsound.within_quota n
          rw [admittedMb, if_pos rfl, Nat.add_comm] at hwithin
          exact hwithin

/-- As long as every step is careful, no more is admitted under a nullifier than the largest quota
presented for it, nothing is admitted once it is exhausted, and nothing overflows. A step that is
not careful can be followed by steps after which this does not hold. And a quota is entered with
care if the two checks still hold and no call has taken the nullifier out of the one table and not
put it into the other. -/
theorem bank_sound_of_careful (b : Build) {as : List Action}
    (h : Always (step b) Careful init as) :
    let s := as.foldl (step b) init
    Sound s.log ∧
      (∀ a, ¬ Careful s a → ∃ more, ¬ Sound ((as ++ a :: more).foldl (step b) init).log) ∧
      ∀ i clock n quotaMb, s.calls[i]? = some (.insertActive n quotaMb) →
        n ∉ s.bank.activeVouchers → n ∉ s.bank.exhaustedNullifiers →
        .insertExhausted n ∉ s.calls → .panicked n ∉ s.log → Careful s (.resume i clock) := by
  intro s
  have hkept : Kept s := kept_of_always b h
  refine ⟨hkept.sound, fun a hcareless => ?_,
    fun i clock n quotaMb => hkept.careful_of_untouched clock⟩
  obtain ⟨more, hmore⟩ := hkept.not_sound_of_careless b hcareless
  exact ⟨more, by rwa [foldl_append]⟩

/-! ### Two redeemers -/

instance (s : Relay) (a : Action) : Decidable (Careful s a) :=
  match a with
  | .redeem v _ => inferInstanceAs (Decidable (v.epochSlot.toNat + 24 < 2 ^ 64))
  | .consume _ _ => isTrue trivial
  | .resume i clock =>
      match h : s.calls[i]? with
      | some (.insertActive n quotaMb) =>
          decidable_of_iff (n ∉ s.bank.exhaustedNullifiers ∧ .insertExhausted n ∉ s.calls ∧
            admittedMb n s.log + quotaMb.toNat ≤ largestQuota n s.log) (by simp [Careful, h])
      | some (.checkExhausted _ _) => isTrue (by simp [Careful, h])
      | some (.checkActive _ _) => isTrue (by simp [Careful, h])
      | some (.removeActive _) => isTrue (by simp [Careful, h])
      | some (.insertExhausted _) => isTrue (by simp [Careful, h])
      | none => isTrue (by simp [Careful, h])

def plainBuild : Build where
  sha256 bytes := Block.zeroPadded 32 (bytes.drop 41)
  overflowChecks := true

def token : Octets 32 := .replicate 32 0x77

def twentyMb : BandwidthVoucher where
  tokenPreimage := token
  epochSlot := 480000
  quotaMb := 20
  proofHash := .replicate 32 0x99

/-- Two calls redeem the voucher, and both have made their checks before the first one enters it. -/
def bothChecked : List Action :=
  [.redeem twentyMb (some 1728000000), .redeem twentyMb (some 1728000000), .resume 0 none,
    .resume 1 none, .resume 0 none, .resume 1 none]

/-- The second one enters it when most of it is spent. -/
def spentTwice : List Action :=
  bothChecked ++ [.resume 0 none, .consume token 15, .resume 0 none, .consume token 20]

theorem not_sound_spentTwice :
    ¬ ∀ as : List Action, Sound (as.foldl (step plainBuild) init).log := by
  intro h
  have hwithin := (h spentTwice).within_quota token
  revert hwithin
  decide +kernel

/-- The voucher is redeemed once and spent, and then presented again. -/
def spentOnce : List Action :=
  [.redeem twentyMb (some 1728000000), .resume 0 none, .resume 0 none, .resume 0 none,
    .consume token 15, .consume token 10, .consume token 5, .resume 0 none,
    .resume 0 (some 1728000001), .redeem twentyMb (some 1728000002), .resume 0 none]

theorem sound_spentOnce :
    Always (step plainBuild) Careful init spentOnce ∧
      Sound (spentOnce.foldl (step plainBuild) init).log := by
  have h : Always (step plainBuild) Careful init spentOnce := by decide +kernel
  exact ⟨h, (bank_sound_of_careful plainBuild h).1⟩

end Voucher

end Vantablack.Net
