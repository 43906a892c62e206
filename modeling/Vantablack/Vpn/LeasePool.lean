import Vantablack.Lib.Runs
import Vantablack.Vpn.Owner

/-!
The pool of overlay addresses, `10.66.0.10` to `10.66.0.254`, over any order of the calls that give
one out, move one or free one. The host computations are those of the type `u8`, which here fail
where they would overflow.
-/

namespace Vantablack.Vpn

open Lib Layers Receive

/-- An addition of the type `u8`, or none if it overflows. -/
def addU8 (a b : ℕ) : Option ℕ :=
  if a + b < 2 ^ 8 then some (a + b) else none

theorem addU8_one {host : ℕ} (h : host ≤ overlayLastClientHost) : addU8 host 1 = some (host + 1) := by
  refine if_pos ?_
  have hlast : overlayLastClientHost + 1 < 2 ^ 8 := by decide
  omega

namespace LeaseTable

/-- `findHost`, with the additions of the source. -/
def findHostU8 (used : List ℕ) : ℕ → ℕ → Option (Option ℕ)
  | 0, _ => some none
  | fuel + 1, host =>
      let host := if overlayLastClientHost < host then overlayFirstClientHost else host
      if host ∈ used then (addU8 host 1).bind fun host => findHostU8 used fuel host
      else some (some host)

/-- `leaseFor`, with the additions of the source. -/
def leaseForU8 (t : LeaseTable) (now : ℕ) (fingerprint : String) :
    Option (Option (Octets 4) × LeaseTable) :=
  match t.byFp.lookup fingerprint with
  | some l => some (some l.overlayIp, t)
  | none =>
      let used := t.byFp.entries.map fun e => lastOctet e.2.overlayIp
      match findHostU8 used (overlayLastClientHost - overlayFirstClientHost + 1) t.nextHost with
      | none => none
      | some none => some (none, t)
      | some (some host) =>
          (addU8 host 1).map fun next =>
            (some (overlayIp host),
              { byFp := t.byFp.insert fingerprint (freshLease fingerprint (overlayIp host) now)
                byIp := t.byIp.insert (overlayIp host) fingerprint
                nextHost := next })

/-- `leaseForHint`, with the additions of the source. -/
def leaseForHintU8 (t : LeaseTable) (now : ℕ) (fingerprint : String) (h : Octets 4) :
    Option LeaseTable :=
  let claimedByOther := t.byFp.entries.any fun e =>
    e.2.overlayIp = h && e.2.fingerprint ≠ fingerprint
  if !isValidOverlay h || claimedByOther then (t.leaseForU8 now fingerprint).map Prod.snd
  else
    match t.byFp.lookup fingerprint with
    | some l =>
        if l.overlayIp = h then some t
        else
          some
            { t with
              byFp := t.byFp.insert fingerprint { l with overlayIp := h }
              byIp := (t.byIp.erase l.overlayIp).insert h fingerprint }
    | none =>
        (addU8 (lastOctet h) 1).map fun next =>
          { byFp := t.byFp.insert fingerprint (freshLease fingerprint h now)
            byIp := t.byIp.insert h fingerprint
            nextHost := if overlayFirstClientHost < next then max t.nextHost next else t.nextHost }

/-! ### No addition overflows -/

theorem findHostU8_eq (used : List ℕ) (fuel start : ℕ) :
    findHostU8 used fuel start = some (findHost used fuel start) := by
  induction fuel generalizing start with
  | zero => rfl
  | succ fuel ih =>
      have hle : (if overlayLastClientHost < start then overlayFirstClientHost else start) ≤
          overlayLastClientHost := by
        split
        · decide
        · omega
      rw [findHostU8, findHost]
      generalize (if overlayLastClientHost < start then overlayFirstClientHost else start) = turn
        at hle
      split
      · rw [addU8_one hle]
        exact ih (turn + 1)
      · rfl

theorem leaseForU8_eq (t : LeaseTable) (now : ℕ) (fp : String) :
    t.leaseForU8 now fp = some (t.leaseFor now fp) := by
  unfold leaseForU8 leaseFor
  cases t.byFp.lookup fp with
  | some l => rfl
  | none =>
      dsimp only
      rw [findHostU8_eq]
      cases hfound : findHost (t.byFp.entries.map fun e => lastOctet e.2.overlayIp)
          (overlayLastClientHost - overlayFirstClientHost + 1) t.nextHost with
      | none => rfl
      | some host =>
          dsimp only
          rw [addU8_one (findHost_spec hfound).2]
          rfl

theorem isValidOverlay_iff {ip : Octets 4} :
    isValidOverlay ip = true ↔ ∃ host, overlayFirstClientHost ≤ host ∧
      host ≤ overlayLastClientHost ∧ ip = overlayIp host := by
  unfold isValidOverlay
  rw [Bool.and_eq_true_iff, Bool.and_eq_true_iff, decide_eq_true_iff, decide_eq_true_iff,
    decide_eq_true_iff]
  constructor
  · rintro ⟨⟨htake, hfirst⟩, hlast⟩
    refine ⟨lastOctet ip, hfirst, hlast, ?_⟩
    obtain ⟨bytes, hlen⟩ := ip
    obtain ⟨a, b, c, d, rfl⟩ := List.length_eq_four.mp hlen
    obtain ⟨rfl, rfl, rfl⟩ : a = 10 ∧ b = 66 ∧ c = 0 := by
      simpa [List.Vector.toList] using htake
    refine Subtype.ext ?_
    change [10, 66, 0, d] = [10, 66, 0, UInt8.ofNat d.toNat]
    rw [UInt8.ofNat_toNat]
  · rintro ⟨host, hfirst, hlast, rfl⟩
    rw [lastOctet_overlayIp hlast]
    exact ⟨⟨rfl, hfirst⟩, hlast⟩

theorem leaseForHintU8_eq (t : LeaseTable) (now : ℕ) (fp : String) (hint : Octets 4) :
    t.leaseForHintU8 now fp hint = some (t.leaseForHint now fp hint) := by
  unfold leaseForHintU8 leaseForHint
  dsimp only
  split
  · rw [leaseForU8_eq]
    rfl
  · rename_i hok
    have hvalid : isValidOverlay hint = true := by
      by_contra hinvalid
      exact hok (by simp [hinvalid])
    obtain ⟨host, -, hlast, rfl⟩ := isValidOverlay_iff.mp hvalid
    cases t.byFp.lookup fp with
    | some l =>
        dsimp only
        split <;> rfl
    | none =>
        dsimp only
        rw [lastOctet_overlayIp hlast, addU8_one hlast]
        rfl

/-! ### The hosts that are tried -/

/-- The host that is tried after `i` others. -/
def hostAfter (start i : ℕ) : ℕ :=
  overlayFirstClientHost + (start - overlayFirstClientHost + i) %
    (overlayLastClientHost - overlayFirstClientHost + 1)

/-- The cursor is in the pool, or one past it. -/
def OnPool (host : ℕ) : Prop :=
  overlayFirstClientHost ≤ host ∧ host ≤ overlayLastClientHost + 1

theorem hostAfter_zero {start : ℕ} (h : OnPool start) :
    (if overlayLastClientHost < start then overlayFirstClientHost else start) =
      hostAfter start 0 := by
  obtain ⟨hfirst, hlast⟩ := h
  by_cases hpast : overlayLastClientHost < start
  · rw [if_pos hpast]
    simp only [hostAfter, overlayFirstClientHost, overlayLastClientHost] at *
    omega
  · rw [if_neg hpast]
    simp only [hostAfter, overlayFirstClientHost, overlayLastClientHost] at *
    omega

theorem hostAfter_succ {start : ℕ} (i : ℕ) :
    hostAfter (hostAfter start 0 + 1) i = hostAfter start (i + 1) := by
  simp only [hostAfter, overlayFirstClientHost, overlayLastClientHost]
  omega

theorem hostAfter_bounds (start i : ℕ) :
    overlayFirstClientHost ≤ hostAfter start i ∧ hostAfter start i ≤ overlayLastClientHost := by
  simp only [hostAfter, overlayFirstClientHost, overlayLastClientHost]
  omega

theorem onPool_hostAfter_succ (start i : ℕ) : OnPool (hostAfter start i + 1) := by
  obtain ⟨hfirst, hlast⟩ := hostAfter_bounds start i
  exact ⟨Nat.le_succ_of_le hfirst, Nat.succ_le_succ hlast⟩

theorem exists_hostAfter (start : ℕ) {host : ℕ} (hfirst : overlayFirstClientHost ≤ host)
    (hlast : host ≤ overlayLastClientHost) :
    ∃ i < overlayLastClientHost - overlayFirstClientHost + 1, hostAfter start i = host := by
  simp only [overlayFirstClientHost, overlayLastClientHost] at hfirst hlast
  simp only [hostAfter, overlayFirstClientHost, overlayLastClientHost]
  exact ⟨(host - 10 + (245 - (start - 10) % 245)) % 245, by omega, by omega⟩

theorem findHost_eq_none_iff {used : List ℕ} {fuel start : ℕ} (h : OnPool start) :
    findHost used fuel start = none ↔ ∀ i < fuel, hostAfter start i ∈ used := by
  induction fuel generalizing start with
  | zero => simp [findHost]
  | succ fuel ih =>
      rw [findHost, hostAfter_zero h]
      by_cases hused : hostAfter start 0 ∈ used
      · rw [if_pos hused, ih (onPool_hostAfter_succ start 0)]
        constructor
        · intro hall i hi
          cases i with
          | zero => exact hused
          | succ i =>
              rw [← hostAfter_succ]
              exact hall i (Nat.lt_of_succ_lt_succ hi)
        · intro hall i hi
          rw [hostAfter_succ]
          exact hall (i + 1) (Nat.succ_lt_succ hi)
      · rw [if_neg hused]
        simp only [reduceCtorEq, false_iff]
        intro hall
        exact hused (hall 0 (Nat.succ_pos fuel))

theorem exists_hostAfter_of_findHost {used : List ℕ} {fuel start host : ℕ} (h : OnPool start)
    (hfound : findHost used fuel start = some host) : ∃ i, host = hostAfter start i := by
  induction fuel generalizing start with
  | zero => cases hfound
  | succ fuel ih =>
      rw [findHost, hostAfter_zero h] at hfound
      split at hfound
      · obtain ⟨i, hi⟩ := ih (onPool_hostAfter_succ start 0) hfound
        exact ⟨i + 1, by rw [hi, hostAfter_succ]⟩
      · cases hfound
        exact ⟨0, rfl⟩

/-! ### The pool -/

/-- The leases have addresses of the pool, one each. -/
structure Pool (t : LeaseTable) : Prop where
  indexed : t.Indexed
  hosts : ∀ fp l, t.byFp.lookup fp = some l → isValidOverlay l.overlayIp = true
  next : OnPool t.nextHost

section

variable {t : LeaseTable} {fp : String} {now : ℕ}

theorem pool_new : new.Pool where
  indexed := indexed_new
  hosts := by
    intro fp l hl
    cases hl
  next := ⟨Nat.le_refl _, by decide⟩

theorem lastOctet_eq_iff {ip : Octets 4} (h : isValidOverlay ip = true) {host : ℕ}
    (hlast : host ≤ overlayLastClientHost) : lastOctet ip = host ↔ ip = overlayIp host := by
  obtain ⟨host', -, hlast', rfl⟩ := isValidOverlay_iff.mp h
  rw [lastOctet_overlayIp hlast']
  refine ⟨fun heq => by rw [heq], fun heq => ?_⟩
  rw [← lastOctet_overlayIp hlast', heq, lastOctet_overlayIp hlast]

theorem Pool.mem_used_iff (h : t.Pool) {host : ℕ} (hlast : host ≤ overlayLastClientHost) :
    (host ∈ t.byFp.entries.map fun e => lastOctet e.2.overlayIp) ↔
      ∃ fp, t.Leased (overlayIp host) fp := by
  rw [List.mem_map]
  constructor
  · rintro ⟨e, he, hhost⟩
    have hl : t.byFp.lookup e.1 = some e.2 := AList.mem_lookup_iff.mpr he
    exact ⟨e.1, leased_iff.mpr ⟨e.2, hl, (lastOctet_eq_iff (h.hosts _ _ hl) hlast).mp hhost⟩⟩
  · rintro ⟨fp, hleased⟩
    obtain ⟨l, hl, hip⟩ := leased_iff.mp hleased
    refine ⟨⟨fp, l⟩, AList.mem_lookup_iff.mp hl, ?_⟩
    exact (lastOctet_eq_iff (h.hosts _ _ hl) hlast).mpr hip

theorem Pool.leaseFor_eq_none_iff (h : t.Pool) (hnew : t.byFp.lookup fp = none) :
    (t.leaseFor now fp).1 = none ↔ ∀ host, overlayFirstClientHost ≤ host →
      host ≤ overlayLastClientHost → ∃ fp', t.Leased (overlayIp host) fp' := by
  have hresult : (t.leaseFor now fp).1 = none ↔
      findHost (t.byFp.entries.map fun e => lastOctet e.2.overlayIp)
        (overlayLastClientHost - overlayFirstClientHost + 1) t.nextHost = none := by
    rw [leaseFor, hnew]
    dsimp only
    split <;> simp [*]
  rw [hresult, findHost_eq_none_iff h.next]
  constructor
  · intro hall host hfirst hlast
    obtain ⟨i, hi, rfl⟩ := exists_hostAfter t.nextHost hfirst hlast
    exact (h.mem_used_iff hlast).mp (hall i hi)
  · intro hall i _
    obtain ⟨hfirst, hlast⟩ := hostAfter_bounds t.nextHost i
    exact (h.mem_used_iff hlast).mpr (hall _ hfirst hlast)

theorem leaseFor_cases (h : OnPool t.nextHost) (now : ℕ) (fp : String) :
    (t.leaseFor now fp).2 = t ∨ ∃ i, (t.leaseFor now fp).2 =
      { byFp := t.byFp.insert fp (freshLease fp (overlayIp (hostAfter t.nextHost i)) now)
        byIp := t.byIp.insert (overlayIp (hostAfter t.nextHost i)) fp
        nextHost := hostAfter t.nextHost i + 1 } := by
  unfold leaseFor
  split
  · exact Or.inl rfl
  · dsimp only
    split
    · exact Or.inl rfl
    · rename_i host hfound
      obtain ⟨i, rfl⟩ := exists_hostAfter_of_findHost h hfound
      exact Or.inr ⟨i, rfl⟩

theorem isValidOverlay_hostAfter (start i : ℕ) :
    isValidOverlay (overlayIp (hostAfter start i)) = true := by
  obtain ⟨hfirst, hlast⟩ := hostAfter_bounds start i
  exact isValidOverlay_iff.mpr ⟨_, hfirst, hlast, rfl⟩

theorem Pool.hosts_insert (h : t.Pool) {l : Lease} (hl : isValidOverlay l.overlayIp = true)
    (fp' : String) (l' : Lease) (hl' : (t.byFp.insert fp l).lookup fp' = some l') :
    isValidOverlay l'.overlayIp = true := by
  rcases Table.lookup_insert_eq_some.mp hl' with ⟨-, rfl⟩ | ⟨-, hl'⟩
  · exact hl
  · exact h.hosts fp' l' hl'

theorem Pool.leaseFor (h : t.Pool) (now : ℕ) (fp : String) : (t.leaseFor now fp).2.Pool := by
  refine ⟨h.indexed.leaseFor now, ?_, ?_⟩
  · rcases leaseFor_cases h.next now fp with hsame | ⟨i, hnew⟩
    · rw [hsame]
      exact h.hosts
    · rw [hnew]
      exact h.hosts_insert (isValidOverlay_hostAfter _ _)
  · rcases leaseFor_cases h.next now fp with hsame | ⟨i, hnew⟩
    · rw [hsame]
      exact h.next
    · rw [hnew]
      exact onPool_hostAfter_succ _ _

theorem onPool_pastHint (h : OnPool t.nextHost) {hint : Octets 4}
    (hvalid : isValidOverlay hint = true) :
    OnPool (if overlayFirstClientHost < lastOctet hint + 1 then max t.nextHost (lastOctet hint + 1)
      else t.nextHost) := by
  obtain ⟨host, hfirst, hlast, rfl⟩ := isValidOverlay_iff.mp hvalid
  rw [lastOctet_overlayIp hlast]
  unfold OnPool at h ⊢
  split <;> omega

theorem Pool.leaseForHint (h : t.Pool) (now : ℕ) (fp : String) (hint : Octets 4) :
    (t.leaseForHint now fp hint).Pool := by
  refine ⟨h.indexed.leaseForHint now hint, ?_, ?_⟩
  · unfold LeaseTable.leaseForHint
    dsimp only
    split
    · exact (h.leaseFor now fp).hosts
    · rename_i hok
      have hvalid : isValidOverlay hint = true := by
        by_contra hinvalid
        exact hok (by simp [hinvalid])
      split
      · split
        · exact h.hosts
        · exact h.hosts_insert hvalid
      · exact h.hosts_insert hvalid
  · unfold LeaseTable.leaseForHint
    dsimp only
    split
    · exact (h.leaseFor now fp).next
    · rename_i hok
      have hvalid : isValidOverlay hint = true := by
        by_contra hinvalid
        exact hok (by simp [hinvalid])
      split
      · split
        · exact h.next
        · exact h.next
      · exact onPool_pastHint h.next hvalid

theorem Pool.evict (h : t.Pool) (fp : String) : (t.evict fp).Pool := by
  refine ⟨h.indexed.evict, ?_, ?_⟩
  · unfold LeaseTable.evict
    split
    · exact h.hosts
    · intro fp' l' hl'
      exact h.hosts fp' l' (Table.lookup_erase_eq_some.mp hl').2
  · unfold LeaseTable.evict
    split
    · exact h.next
    · exact h.next

end

/-! ### Calls in any order -/

/-- A call on the table; the hint of the client may be missing. -/
inductive Call where
  | leaseFor (now : ℕ) (fp : String)
  | leaseForHint (now : ℕ) (fp : String) (hint : Option (Octets 4))
  | evict (fp : String)

def step (t : LeaseTable) : Call → LeaseTable
  | .leaseFor now fp => (t.leaseFor now fp).2
  | .leaseForHint now fp none => (t.leaseFor now fp).2
  | .leaseForHint now fp (some h) => t.leaseForHint now fp h
  | .evict fp => t.evict fp

/-- `step`, with the additions of the source. -/
def stepU8 (t : LeaseTable) : Call → Option LeaseTable
  | .leaseFor now fp => (t.leaseForU8 now fp).map Prod.snd
  | .leaseForHint now fp none => (t.leaseForU8 now fp).map Prod.snd
  | .leaseForHint now fp (some h) => t.leaseForHintU8 now fp h
  | .evict fp => some (t.evict fp)

theorem stepU8_eq (t : LeaseTable) (call : Call) : t.stepU8 call = some (t.step call) := by
  cases call with
  | leaseFor now fp =>
      rw [stepU8, leaseForU8_eq]
      rfl
  | leaseForHint now fp hint =>
      cases hint with
      | none =>
          rw [stepU8, leaseForU8_eq]
          rfl
      | some h => exact leaseForHintU8_eq t now fp h
  | evict fp => rfl

theorem Pool.step {t : LeaseTable} (h : t.Pool) (call : Call) : (t.step call).Pool := by
  cases call with
  | leaseFor now fp => exact h.leaseFor now fp
  | leaseForHint now fp hint =>
      cases hint with
      | none => exact h.leaseFor now fp
      | some hint => exact h.leaseForHint now fp hint
  | evict fp => exact h.evict fp

theorem leaseFor_of_leased {t : LeaseTable} {fp : String} {l : Lease}
    (hl : t.byFp.lookup fp = some l) (now : ℕ) : t.leaseFor now fp = (some l.overlayIp, t) := by
  rw [leaseFor, hl]

theorem lookup_step {t : LeaseTable} {fp : String} {l : Lease} {call : Call}
    (hl : t.byFp.lookup fp = some l) (hhint : ∀ now hint, call ≠ .leaseForHint now fp (some hint))
    (hevict : call ≠ .evict fp) : (t.step call).byFp.lookup fp = some l := by
  have hassign : ∀ now fp', (t.leaseFor now fp').2.byFp.lookup fp = some l := by
    intro now fp'
    by_cases hfp : fp = fp'
    · rw [← hfp, leaseFor_of_leased hl]
      exact hl
    · rw [lookup_leaseFor_of_ne hfp]
      exact hl
  cases call with
  | leaseFor now fp' => exact hassign now fp'
  | leaseForHint now fp' hint =>
      cases hint with
      | none => exact hassign now fp'
      | some hint =>
          have hfp : fp ≠ fp' := by
            rintro rfl
            exact hhint now hint rfl
          exact (lookup_leaseForHint_of_ne hfp hint).trans hl
  | evict fp' =>
      have hfp : fp ≠ fp' := by
        rintro rfl
        exact hevict rfl
      exact (lookup_evict_of_ne hfp).trans hl

/-- After any calls: an address has one client at most and is in the pool, the two tables are
inverse to each other, a lease changes by a hint or the eviction of its own client only, a new
client gets an address unless all are leased, and no addition overflows. -/
theorem leases_after_calls (calls : List Call) :
    let t := calls.foldl step new
    (∀ ip fp fp', t.Leased ip fp → t.Leased ip fp' → fp = fp') ∧
      (∀ ip fp, t.Leased ip fp → ∃ host, overlayFirstClientHost ≤ host ∧
        host ≤ overlayLastClientHost ∧ ip = overlayIp host) ∧
      (∀ ip fp, t.byIp.lookup ip = some fp ↔ t.Leased ip fp) ∧
      (∀ call fp l, t.byFp.lookup fp = some l →
        (∀ now hint, call ≠ .leaseForHint now fp (some hint)) → call ≠ .evict fp →
        (t.step call).byFp.lookup fp = some l) ∧
      (∀ now fp, t.byFp.lookup fp = none → ((t.leaseFor now fp).1 = none ↔
        ∀ host, overlayFirstClientHost ≤ host → host ≤ overlayLastClientHost →
          ∃ fp', t.Leased (overlayIp host) fp')) ∧
      ∀ call, t.stepU8 call = some (t.step call) := by
  intro t
  have h : t.Pool := foldl_invariant Pool (fun _ call ht => ht.step call) pool_new calls
  refine ⟨?_, ?_, ?_, ?_, ?_, ?_⟩
  · intro ip fp fp' hfp hfp'
    exact h.indexed.leased_unique hfp hfp'
  · intro ip fp hleased
    obtain ⟨l, hl, rfl⟩ := leased_iff.mp hleased
    exact isValidOverlay_iff.mp (h.hosts fp l hl)
  · intro ip fp
    exact h.indexed.lookup_byIp
  · intro call fp l hl hhint hevict
    exact lookup_step hl hhint hevict
  · intro now fp hnew
    exact h.leaseFor_eq_none_iff hnew
  · intro call
    exact stepU8_eq t call

end LeaseTable

end Vantablack.Vpn
