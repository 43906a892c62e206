import Vantablack.Lib.Index
import Vantablack.Vpn.Lease

/-!
Which client an overlay address belongs to, `fingerprint_for_ip` of `net/vpn/mod.rs`. The table by
addresses is the index of the leases at all times, so that an address has one client at most.
-/

namespace Vantablack.Vpn

open Lib Layers Receive

/-- `Ipv4Addr::UNSPECIFIED`. -/
def unspecifiedIp : Octets 4 := ⟨[0, 0, 0, 0], by decide⟩

/-- An address of the overlay as the fallback of `fingerprint_for_ip` takes it. -/
def onOverlay (ip : Octets 4) : Bool :=
  ip.toList.take 3 = [10, 66, 0]

namespace LeaseTable

/-- The address `lease_for_hint` returns. -/
def hintedIp (t : LeaseTable) (now : ℕ) (fingerprint : String) (h : Octets 4) : Octets 4 :=
  let own := (t.byFp.lookup fingerprint).any fun l => l.overlayIp = h
  let claimedByOther := t.byFp.entries.any fun e =>
    e.2.overlayIp = h && e.2.fingerprint ≠ fingerprint
  if isValidOverlay h && (own || !claimedByOther) then h
  else (t.leaseFor now fingerprint).1.getD unspecifiedIp

def fingerprintForIp (t : LeaseTable) (overlayIp : Octets 4) : Option String :=
  match t.byIp.lookup overlayIp with
  | some fp => some fp
  | none =>
      match t.byFp.entries.find? fun e => e.2.overlayIp = overlayIp with
      | some e => some e.1
      | none => if t.byFp.size = 1 ∧ onOverlay overlayIp then t.byFp.keys.head? else none

def clear (t : LeaseTable) : LeaseTable :=
  { t with byFp := ∅, byIp := ∅ }

/-- The address in the lease of a client, or none. -/
def overlayOf (t : LeaseTable) (fp : String) : Octets 4 :=
  ((t.byFp.lookup fp).map Lease.overlayIp).getD unspecifiedIp

theorem overlayOf_leaseForHint (t : LeaseTable) (now : ℕ) (fp : String) (h : Octets 4) :
    (t.leaseForHint now fp h).overlayOf fp = t.hintedIp now fp h := by
  have hassigned : (t.leaseFor now fp).2.overlayOf fp =
      (t.leaseFor now fp).1.getD unspecifiedIp := by
    unfold leaseFor overlayOf
    cases hl : t.byFp.lookup fp with
    | some l => simp [hl]
    | none =>
        dsimp only
        split
        · simp [hl]
        · simp [AList.lookup_insert, freshLease]
  unfold leaseForHint hintedIp
  dsimp only
  cases hvalid : isValidOverlay h with
  | false => simpa using hassigned
  | true =>
      cases hclaimed : t.byFp.entries.any fun e =>
          e.2.overlayIp = h && e.2.fingerprint ≠ fp with
      | true =>
          cases hl : t.byFp.lookup fp with
          | none => simpa [hl] using hassigned
          | some l =>
              by_cases hown : l.overlayIp = h
              · simp [leaseFor, hl, overlayOf, hown]
              · simpa [hl, hown] using hassigned
      | false =>
          cases hl : t.byFp.lookup fp with
          | none => simp [overlayOf, AList.lookup_insert, freshLease]
          | some l =>
              by_cases hown : l.overlayIp = h
              · simp [overlayOf, hl, hown]
              · simp [overlayOf, AList.lookup_insert, hown]

/-! ### The index -/

/-- The table by addresses is the index of the leases, and each lease names its client. -/
structure Indexed (t : LeaseTable) : Prop where
  index : IsIndex t.byFp Lease.overlayIp t.byIp
  named : ∀ fp l, t.byFp.lookup fp = some l → l.fingerprint = fp

section

variable {t : LeaseTable} {fp : String} {ip : Octets 4}

theorem indexed_new : new.Indexed where
  index := .empty _
  named := by
    intro fp l hl
    cases hl

theorem Indexed.clear (_ : t.Indexed) : t.clear.Indexed where
  index := .empty _
  named := by
    intro fp l hl
    cases hl

theorem Indexed.insert_same (h : t.Indexed) {l l' : Lease} (hl : t.byFp.lookup fp = some l)
    (hip : l'.overlayIp = l.overlayIp) (hname : l'.fingerprint = l.fingerprint) :
    ({ t with byFp := t.byFp.insert fp l' } : LeaseTable).Indexed where
  index := h.index.insert_same hl hip
  named := by
    intro fp₀ l₀ hl₀
    rcases Table.lookup_insert_eq_some.mp hl₀ with ⟨rfl, rfl⟩ | ⟨-, hl₀⟩
    · rw [hname]
      exact h.named fp₀ l hl
    · exact h.named fp₀ l₀ hl₀

theorem Indexed.modify (h : t.Indexed) {f : Lease → Lease} (hip : ∀ l, (f l).overlayIp = l.overlayIp)
    (hname : ∀ l, (f l).fingerprint = l.fingerprint) : (t.modify fp f).Indexed := by
  unfold LeaseTable.modify
  split
  · exact h
  · rename_i l hl
    exact h.insert_same hl (hip l) (hname l)

theorem observe_frame (l : Lease) (now epoch ctr : ℕ) (src : SocketAddr) :
    (observe l now epoch ctr src).2.overlayIp = l.overlayIp ∧
      (observe l now epoch ctr src).2.fingerprint = l.fingerprint := by
  unfold observe
  by_cases hadvanced : l.tunnelVMax < ctr <;> simp only [hadvanced] <;> repeat' split
  all_goals exact ⟨rfl, rfl⟩

theorem Indexed.observeTunnelPacket (h : t.Indexed) (now epoch ctr : ℕ) (src : SocketAddr) :
    (t.observeTunnelPacket now fp epoch ctr src).2.Indexed := by
  unfold LeaseTable.observeTunnelPacket
  split
  · exact h
  · rename_i l hl
    obtain ⟨hip, hname⟩ := observe_frame l now epoch ctr src
    exact h.insert_same hl hip hname

theorem Indexed.insert_new (h : t.Indexed) (hl : t.byFp.lookup fp = none) (now nextHost : ℕ)
    (hfree : ∀ fp' l, t.byFp.lookup fp' = some l → l.overlayIp ≠ ip) :
    ({ byFp := t.byFp.insert fp (freshLease fp ip now), byIp := t.byIp.insert ip fp
       nextHost := nextHost } : LeaseTable).Indexed where
  index := h.index.insert_new (v := freshLease fp ip now) hl (h.index.lookup_eq_none_iff.mpr hfree)
  named := by
    intro fp₀ l₀ hl₀
    rcases Table.lookup_insert_eq_some.mp hl₀ with ⟨rfl, rfl⟩ | ⟨-, hl₀⟩
    · rfl
    · exact h.named fp₀ l₀ hl₀

theorem findHost_spec {used : List ℕ} {fuel start host : ℕ}
    (h : findHost used fuel start = some host) : host ∉ used ∧ host ≤ overlayLastClientHost := by
  induction fuel generalizing start with
  | zero => cases h
  | succ fuel ih =>
      have hle : (if overlayLastClientHost < start then overlayFirstClientHost else start) ≤
          overlayLastClientHost := by
        split
        · decide
        · omega
      rw [findHost] at h
      generalize (if overlayLastClientHost < start then overlayFirstClientHost else start) = turn
        at h hle
      split at h
      · exact ih h
      · rename_i hfree
        cases h
        exact ⟨hfree, hle⟩

theorem lastOctet_overlayIp {host : ℕ} (h : host ≤ overlayLastClientHost) :
    lastOctet (overlayIp host) = host := by
  have hlt : host < 2 ^ 8 := lt_of_le_of_lt h (by decide)
  exact (UInt8.toNat_ofNat' (n := host)).trans (Nat.mod_eq_of_lt hlt)

theorem Indexed.leaseFor (h : t.Indexed) (now : ℕ) : (t.leaseFor now fp).2.Indexed := by
  unfold LeaseTable.leaseFor
  split
  · exact h
  · rename_i hl
    dsimp only
    split
    · exact h
    · rename_i host hhost
      obtain ⟨hfree, hle⟩ := findHost_spec hhost
      refine h.insert_new hl now (host + 1) ?_
      intro fp' l hl' hip
      refine hfree (List.mem_map.mpr ⟨⟨fp', l⟩, AList.mem_lookup_iff.mp hl', ?_⟩)
      rw [hip, lastOctet_overlayIp hle]

theorem Indexed.leaseForHint (h : t.Indexed) (now : ℕ) (hint : Octets 4) :
    (t.leaseForHint now fp hint).Indexed := by
  unfold LeaseTable.leaseForHint
  dsimp only
  split
  · exact h.leaseFor now
  · rename_i hok
    -- a lease at the hint is the one of the client itself
    have hown : ∀ fp' l, t.byFp.lookup fp' = some l → l.overlayIp = hint → fp' = fp := by
      intro fp' l hl hip
      by_contra hne
      refine hok (Bool.or_eq_true_iff.mpr (Or.inr (List.any_eq_true.mpr
        ⟨⟨fp', l⟩, AList.mem_lookup_iff.mp hl, ?_⟩)))
      simp [hip, h.named fp' l hl, hne]
    split
    · rename_i l hl
      split
      · exact h
      · rename_i hne
        have hfree : t.byIp.lookup hint = none := by
          refine h.index.lookup_eq_none_iff.mpr fun fp' l' hl' hip => ?_
          obtain rfl := hown fp' l' hl' hip
          rw [hl] at hl'
          cases hl'
          exact hne hip
        refine ⟨h.index.move hl hfree, ?_⟩
        intro fp₀ l₀ hl₀
        rcases Table.lookup_insert_eq_some.mp hl₀ with ⟨rfl, rfl⟩ | ⟨-, hl₀⟩
        · exact h.named fp₀ l hl
        · exact h.named fp₀ l₀ hl₀
    · rename_i hl
      refine h.insert_new hl now _ ?_
      intro fp' l hl' hip
      obtain rfl := hown fp' l hl' hip
      rw [hl] at hl'
      cases hl'

theorem Indexed.evict (h : t.Indexed) : (t.evict fp).Indexed := by
  unfold LeaseTable.evict
  split
  · exact h
  · rename_i l hl
    exact ⟨h.index.erase hl, fun fp₀ l₀ hl₀ =>
      h.named fp₀ l₀ (Table.lookup_erase_eq_some.mp hl₀).2⟩

end

/-! ### The owner of an address -/

def Leased (t : LeaseTable) (ip : Octets 4) (fp : String) : Prop :=
  (t.byFp.lookup fp).map Lease.overlayIp = some ip
  deriving Decidable

def Unleased (t : LeaseTable) (ip : Octets 4) : Prop :=
  ∀ fp ∈ t.byFp.keys, ¬ t.Leased ip fp
  deriving Decidable

/-- There is one lease, and it is taken for any address of the overlay. -/
def HasDefault (t : LeaseTable) (ip : Octets 4) : Prop :=
  t.byFp.size = 1 ∧ onOverlay ip = true
  deriving Decidable

section

variable {t : LeaseTable} {fp : String} {ip : Octets 4}

theorem leased_iff : t.Leased ip fp ↔ ∃ l, t.byFp.lookup fp = some l ∧ l.overlayIp = ip :=
  Option.map_eq_some_iff

theorem Leased.mem (h : t.Leased ip fp) : fp ∈ t.byFp := by
  obtain ⟨l, hl, -⟩ := leased_iff.mp h
  rw [← AList.lookup_isSome, hl]
  rfl

theorem Indexed.lookup_byIp (h : t.Indexed) : t.byIp.lookup ip = some fp ↔ t.Leased ip fp :=
  (h.index ip fp).trans leased_iff.symm

theorem Indexed.leased_unique (h : t.Indexed) {fp' : String} (hfp : t.Leased ip fp)
    (hfp' : t.Leased ip fp') : fp = fp' :=
  Option.some.inj ((h.lookup_byIp.mpr hfp).symm.trans (h.lookup_byIp.mpr hfp'))

theorem Indexed.lookup_byIp_eq_none (h : t.Indexed) :
    t.byIp.lookup ip = none ↔ t.Unleased ip := by
  constructor
  · intro hnone fp _ hleased
    rw [h.lookup_byIp.mpr hleased] at hnone
    cases hnone
  · intro hfree
    cases hfound : t.byIp.lookup ip with
    | none => rfl
    | some fp =>
        have hleased := h.lookup_byIp.mp hfound
        exact absurd hleased (hfree fp (AList.mem_keys.mp hleased.mem))

theorem fingerprintForIp_of_unleased (h : t.Indexed) (hfree : t.Unleased ip) :
    t.fingerprintForIp ip = if t.HasDefault ip then t.byFp.keys.head? else none := by
  have hscan : t.byFp.entries.find? (fun e => e.2.overlayIp = ip) = none := by
    refine List.find?_eq_none.mpr fun e he hip => ?_
    have hl : t.byFp.lookup e.1 = some e.2 := AList.mem_lookup_iff.mpr he
    have hleased : t.Leased ip e.1 := leased_iff.mpr ⟨e.2, hl, of_decide_eq_true hip⟩
    exact hfree e.1 (AList.mem_keys.mp hleased.mem) hleased
  rw [fingerprintForIp, h.lookup_byIp_eq_none.mpr hfree]
  dsimp only
  rw [hscan]
  rfl

theorem fingerprintForIp_of_leased (h : t.Indexed) (hleased : t.Leased ip fp) :
    t.fingerprintForIp ip = some fp := by
  rw [fingerprintForIp, h.lookup_byIp.mpr hleased]

end

end LeaseTable

end Vantablack.Vpn
