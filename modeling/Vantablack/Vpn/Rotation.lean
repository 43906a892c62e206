import Vantablack.Lib.Runs
import Vantablack.Vpn.Client
import Vantablack.Vpn.Hub

/-!
Concurrent calls of `seal_from_tun` while an epoch is rotated and a key installed. A sealer loads
the epoch, draws a counter and reads the key; a rotation resets the counter, moves the epoch on,
drops the windows and stores the key. Each of these is one step, and the steps interleave.
-/

namespace Vantablack.Vpn

open Lib Layers Receive List

variable {ι K : Type} [DecidableEq ι]

/-- Where a call of `seal_from_tun` is, with its local variables. A drawn counter is the one with
this place in the order of the draws. -/
inductive Sealer where
  | idle
  | loaded (epoch : ℕ) (ipPacket : Bytes)
  | drawn (epoch ctr place : ℕ) (ipPacket : Bytes)

/-- Where the rotation is, with the key it will install. -/
inductive Rotation (K : Type) where
  | idle
  | reset (k : K)
  | bumped (k : K)
  | evicted (k : K)

/-- A counter that was drawn with an epoch, and the datagram once it is sealed, with its key. -/
structure Draw (K : Type) where
  epoch : ℕ
  ctr : ℕ
  sealedAs : Option (K × Bytes)

/-- The cells of a `ClientState`, the calls under way, the draws so far and the key installed for
each epoch. -/
structure Sealing (ι K : Type) where
  epoch : ℕ
  txCounter : ℕ
  key : K
  sealers : ι → Sealer
  rotation : Rotation K
  draws : List (Draw K)
  keyOf : ℕ → Option K

inductive SealingAct (ι K : Type) where
  | load (t : ι) (ipPacket : Bytes)
  | draw (t : ι)
  | finish (t : ι) (randSeg : Octets 8)
  | reset (k : K)
  | bump
  | evict
  | install

namespace Sealing

/-- `ClientState::new`. -/
def start (key : K) : Sealing ι K where
  epoch := 1
  txCounter := 1
  key := key
  sealers _ := .idle
  rotation := .idle
  draws := []
  keyOf e := if e = 1 then some key else none

/-- An action that is not possible changes nothing. -/
def step (A : TunnelCipher K) (w : Sealing ι K) : SealingAct ι K → Sealing ι K
  | .load t ipPacket =>
      match w.sealers t with
      | .idle =>
          if maxIpPacket < ipPacket.length then w
          else { w with sealers := Function.update w.sealers t (.loaded w.epoch ipPacket) }
      | _ => w
  | .draw t =>
      match w.sealers t with
      | .loaded epoch ipPacket =>
          { w with
            txCounter := (w.txCounter + 1) % 2 ^ 64
            sealers := Function.update w.sealers t
              (.drawn epoch w.txCounter w.draws.length ipPacket)
            draws := w.draws ++ [{ epoch := epoch, ctr := w.txCounter, sealedAs := none }] }
      | _ => w
  | .finish t randSeg =>
      match w.sealers t with
      | .drawn epoch ctr place ipPacket =>
          { w with
            sealers := Function.update w.sealers t .idle
            draws := w.draws.modify place fun d =>
              { d with
                sealedAs := some (w.key, sealDatagram A w.key epoch ctr randSeg ipPacket) } }
      | _ => w
  | .reset k =>
      match w.rotation with
      | .idle => { w with txCounter := 1, rotation := .reset k }
      | _ => w
  | .bump =>
      match w.rotation with
      | .reset k => { w with epoch := (w.epoch + 1) % 2 ^ 32, rotation := .bumped k }
      | _ => w
  | .evict =>
      match w.rotation with
      | .bumped k => { w with rotation := .evicted k }
      | _ => w
  | .install =>
      match w.rotation with
      | .evicted k =>
          { w with
            key := k
            keyOf := Function.update w.keyOf w.epoch (some k)
            rotation := .idle }
      | _ => w

/-! ### The hub -/

/-- The datagrams, in the order of their counters. -/
def wires (w : Sealing ι K) : List Bytes :=
  w.draws.filterMap fun d => d.sealedAs.map Prod.snd

/-- A hub opens datagrams, each under the key of the epoch in its header, and drops none. -/
def Drained (A : TunnelCipher K) (fp : String) (sessionHash : Octets 4) (src : SocketAddr)
    (keyOf : ℕ → Option K) : VpnHub K → List (ℕ × Bytes) → Prop
  | _, [] => True
  | h, (now, wire) :: rest =>
      ∃ k, keyOf (wireEpoch wire) = some k ∧
        (h.handleTunnelPayload A now fp k sessionHash wire src).1.any OpenOutcome.isAccepted = true ∧
        Drained A fp sessionHash src keyOf
          (h.handleTunnelPayload A now fp k sessionHash wire src).2.2 rest

/-- The windows of the hub do not time out: a datagram comes within two minutes of the one before it
and within a day of the first of its epoch. The state is the epoch with these two times. -/
def Timely : Option (ℕ × ℕ × ℕ) → List (ℕ × Bytes) → Prop
  | _, [] => True
  | some (epoch, first, last), (now, wire) :: rest =>
      if wireEpoch wire = epoch then
        now - first < sessionHardTimeout ∧ now - last < sessionIdleTimeout ∧
          Timely (some (epoch, first, now)) rest
      else Timely (some (wireEpoch wire, now, now)) rest
  | none, (now, wire) :: rest => Timely (some (wireEpoch wire, now, now)) rest

/-- No pair of epoch and counter is used twice, every datagram is under the key of its epoch, and a
hub that is handed the datagrams in the order of their counters, in time, drops none. -/
structure Sound (A : TunnelCipher K) (w : Sealing ι K) : Prop where
  nodup : (w.draws.map fun d => (d.epoch, d.ctr)).Nodup
  keyed : ∀ d ∈ w.draws, ∀ k wire, d.sealedAs = some (k, wire) → w.keyOf d.epoch = some k
  drained : ∀ (allowedFingerprints : List String) (fp : String) (sessionHash : Octets 4)
    (src : SocketAddr) (l : List (ℕ × Bytes)),
    (VpnHub.start allowedFingerprints : VpnHub K).authorized fp = true →
    l.map Prod.snd = w.wires → Timely none l →
    Drained A fp sessionHash src w.keyOf (.start allowedFingerprints) l

def counterEpoch (w : Sealing ι K) : ℕ :=
  match w.rotation with
  | .reset _ => w.epoch + 1
  | _ => w.epoch

def keyEpoch (w : Sealing ι K) : ℕ :=
  match w.rotation with
  | .bumped _ | .evicted _ => w.epoch - 1
  | _ => w.epoch

/-- A counter is drawn while it is for the epoch that was loaded and has not wrapped, the key is read
while it is for that epoch, and the epoch does not wrap. -/
def Orderly (w : Sealing ι K) : SealingAct ι K → Prop
  | .draw t =>
      match w.sealers t with
      | .loaded epoch _ => epoch = w.counterEpoch ∧ w.txCounter ≠ 0
      | _ => True
  | .finish t _ =>
      match w.sealers t with
      | .drawn epoch _ _ _ => epoch = w.keyEpoch
      | _ => True
  | .reset _ => w.epoch + 1 < 2 ^ 32
  | _ => True

/-! ### A hub that follows -/

/-- The hub has accepted the counter `ctr` last, in this epoch. -/
structure Follows (h : VpnHub K) (fp : String) (epoch ctr first last : ℕ) : Prop where
  authorized : h.authorized fp = true
  adopted : h.ingressEpochs.lookup fp = some epoch
  window : ∃ st, h.ingress.rx.lookup (fp, epoch) = some st ∧ st.guard.vMax = ctr ∧
    st.guard.startTime = first ∧ st.guard.lastActivity = last
  later : ∀ e, epoch < e → h.ingress.rx.lookup (fp, e) = none

variable {fp : String}

theorem accepted_of_above {A : TunnelCipher K} (hA : A.Lawful) (k : K) (sessionHash : Octets 4)
    (src : SocketAddr) (randSeg : Octets 8) (ipPacket : Bytes) {h : VpnHub K} {epoch ctr now : ℕ}
    (hepoch : epoch < 2 ^ 32) (hctr : ctr < 2 ^ 64) (hauth : h.authorized fp = true)
    (hstale : ∀ e, h.ingressEpochs.lookup fp = some e → e ≤ epoch)
    (hlater : ∀ e, epoch < e → h.ingress.rx.lookup (fp, e) = none)
    (hvalid : (h.ingress.window now fp epoch).guard.isValid now = true)
    (habove : (h.ingress.window now fp epoch).guard.vMax < ctr) :
    (h.handleTunnelPayload A now fp k sessionHash (sealDatagram A k epoch ctr randSeg ipPacket)
        src).1.any OpenOutcome.isAccepted = true ∧
      Follows (h.handleTunnelPayload A now fp k sessionHash
        (sealDatagram A k epoch ctr randSeg ipPacket) src).2.2 fp epoch ctr
        (h.ingress.window now fp epoch).guard.startTime now := by
  obtain ⟨hroom, hmax, hstart, hlast⟩ := SessionGuardU64.checkAndUpdate_of_lt hvalid habove
  have hopen := VpnIngress.openWire_sealDatagram hA hepoch hctr k randSeg ipPacket hroom
  have hwire := wireEpoch_sealDatagram A k randSeg ipPacket hepoch ctr
  have hlen := not_length_sealDatagram_lt A k randSeg ipPacket hA epoch ctr
  generalize sealDatagram A k epoch ctr randSeg ipPacket = wire at *
  subst hwire
  rcases VpnHub.handleTunnelPayload_cases A hlen hauth now k sessionHash src with
    ⟨-, -, -, -, ⟨e, he, hlt⟩ | hrefused⟩ | ⟨packet, advanced, ingress, -, hopen', hresult⟩
  · exact absurd (hstale e he) (not_le.mpr hlt)
  · rw [hopen] at hrefused
    cases hrefused
  · rw [hopen] at hopen'
    obtain ⟨-, rfl⟩ := Prod.mk.inj hopen'
    rw [hresult]
    refine ⟨rfl, ?_⟩
    obtain ⟨hself, hnone, hadopted, hallowed⟩ := VpnHub.ingress_onAccepted
      { h.noteSession fp k sessionHash src with
        ingress := _ } now fp wire src packet
    refine { authorized := ?_, adopted := hadopted, window := ?_, later := ?_ }
    · rw [VpnHub.authorized, hallowed]
      exact hauth
    · exact ⟨_, hself.trans (AList.lookup_insert _), hmax, hstart, hlast⟩
    · intro e he
      have hne : (fp, e) ≠ (fp, wireEpoch wire) := fun heq =>
        absurd (Prod.mk.inj heq).2 (Nat.ne_of_gt he)
      exact hnone _ ((AList.lookup_insert_ne hne).trans (hlater e he))

/-- The order of epochs and counters. -/
def Earlier (a b : ℕ × ℕ) : Prop :=
  a.1 < b.1 ∨ (a.1 = b.1 ∧ a.2 < b.2)

def header (wire : Bytes) : ℕ × ℕ :=
  (wireEpoch wire, wireCtr wire)

def Keyed (A : TunnelCipher K) (keyOf : ℕ → Option K) (wire : Bytes) : Prop :=
  ∃ k epoch ctr randSeg ipPacket, wire = sealDatagram A k epoch ctr randSeg ipPacket ∧
    keyOf epoch = some k ∧ epoch < 2 ^ 32 ∧ 0 < ctr ∧ ctr < 2 ^ 64

theorem fresh_window {s : VpnIngress} {epoch : ℕ} (h : s.rx.lookup (fp, epoch) = none) (now : ℕ) :
    (s.window now fp epoch).guard.isValid now = true ∧ (s.window now fp epoch).guard.vMax = 0 ∧
      (s.window now fp epoch).guard.startTime = now := by
  rw [VpnIngress.window, h, Option.getD_none]
  refine ⟨?_, rfl, rfl⟩
  simp [TunnelRx.new, SessionGuardU64.new, SessionGuardU64.isValid, sessionHardTimeout,
    sessionIdleTimeout]

theorem drained_of_follows {A : TunnelCipher K} (hA : A.Lawful) (sessionHash : Octets 4)
    (src : SocketAddr) {keyOf : ℕ → Option K} {l : List (ℕ × Bytes)}
    (hkeyed : ∀ x ∈ l, Keyed A keyOf x.2) {h : VpnHub K} {epoch ctr first last : ℕ}
    (hfollows : Follows h fp epoch ctr first last)
    (hsorted : ((epoch, ctr) :: l.map fun x => header x.2).Pairwise Earlier)
    (htimely : Timely (some (epoch, first, last)) l) : Drained A fp sessionHash src keyOf h l := by
  induction l generalizing h epoch ctr first last with
  | nil => trivial
  | cons x rest ih =>
      obtain ⟨now, wire⟩ := x
      obtain ⟨k, e, c, randSeg, ipPacket, rfl, hk, he, hpos, hc⟩ :=
        hkeyed (now, wire) mem_cons_self
      have hwireEpoch := wireEpoch_sealDatagram A k randSeg ipPacket he c
      have hwireCtr := wireCtr_sealDatagram A k randSeg ipPacket e hc
      rw [map_cons, header, hwireEpoch, hwireCtr] at hsorted
      obtain ⟨hbefore, hrest⟩ := pairwise_cons.mp hsorted
      have hearlier : Earlier (epoch, ctr) (e, c) := hbefore _ mem_cons_self
      have hkeyed' : ∀ x ∈ rest, Keyed A keyOf x.2 := fun x hx => hkeyed x (mem_cons_of_mem _ hx)
      rw [Timely, hwireEpoch] at htimely
      rw [Drained, hwireEpoch]
      rcases hearlier with hlt | ⟨heq, hlt⟩
      · -- the first datagram of a later epoch
        have hlt' : epoch < e := hlt
        rw [if_neg (Nat.ne_of_gt hlt')] at htimely
        obtain ⟨hvalid, hmax, hstart⟩ := fresh_window (hfollows.later e hlt') now
        have hstale : ∀ e', h.ingressEpochs.lookup fp = some e' → e' ≤ e := by
          intro e' he'
          rw [hfollows.adopted] at he'
          exact (Option.some.inj he').symm.le.trans hlt'.le
        obtain ⟨haccepted, hfollows'⟩ := accepted_of_above hA k sessionHash src randSeg ipPacket he
          hc hfollows.authorized hstale (fun e' he' => hfollows.later e' (hlt'.trans he')) hvalid
          (by omega)
        rw [hstart] at hfollows'
        exact ⟨k, hk, haccepted, ih hkeyed' hfollows' hrest htimely⟩
      · obtain rfl : epoch = e := heq
        have hlt' : ctr < c := hlt
        rw [if_pos rfl] at htimely
        obtain ⟨hhard, hidle, htimely⟩ := htimely
        obtain ⟨st, hst, hmax, hstart, hlast⟩ := hfollows.window
        have hwindow := VpnIngress.window_of_lookup hst now
        have hstale : ∀ e', h.ingressEpochs.lookup fp = some e' → e' ≤ epoch := by
          intro e' he'
          rw [hfollows.adopted] at he'
          exact (Option.some.inj he').symm.le
        have hvalid : (h.ingress.window now fp epoch).guard.isValid now = true := by
          rw [hwindow, SessionGuardU64.isValid, hstart, hlast]
          simp [hhard, hidle]
        have habove : (h.ingress.window now fp epoch).guard.vMax < c := by
          rw [hwindow, hmax]
          exact hlt'
        obtain ⟨haccepted, hfollows'⟩ := accepted_of_above hA k sessionHash src randSeg ipPacket he
          hc hfollows.authorized hstale hfollows.later hvalid habove
        rw [hwindow, hstart] at hfollows'
        exact ⟨k, hk, haccepted, ih hkeyed' hfollows' hrest htimely⟩

theorem drained_of_sorted {A : TunnelCipher K} (hA : A.Lawful) {allowedFingerprints : List String}
    (hauth : (VpnHub.start allowedFingerprints : VpnHub K).authorized fp = true)
    (sessionHash : Octets 4) (src : SocketAddr) {keyOf : ℕ → Option K} {l : List (ℕ × Bytes)}
    (hkeyed : ∀ x ∈ l, Keyed A keyOf x.2) (hsorted : (l.map fun x => header x.2).Pairwise Earlier)
    (htimely : Timely none l) :
    Drained A fp sessionHash src keyOf (.start allowedFingerprints) l := by
  cases l with
  | nil => trivial
  | cons x rest =>
      obtain ⟨now, wire⟩ := x
      obtain ⟨k, e, c, randSeg, ipPacket, rfl, hk, he, hpos, hc⟩ :=
        hkeyed (now, wire) mem_cons_self
      have hwireEpoch := wireEpoch_sealDatagram A k randSeg ipPacket he c
      have hwireCtr := wireCtr_sealDatagram A k randSeg ipPacket e hc
      rw [map_cons, header, hwireEpoch, hwireCtr] at hsorted
      rw [Timely, hwireEpoch] at htimely
      rw [Drained, hwireEpoch]
      have hnone : ∀ e', (VpnHub.start allowedFingerprints : VpnHub K).ingress.rx.lookup (fp, e') =
          none := fun _ => rfl
      obtain ⟨hvalid, hmax, hstart⟩ := fresh_window (hnone e) now
      obtain ⟨haccepted, hfollows⟩ := accepted_of_above hA k sessionHash src randSeg ipPacket he hc
        hauth (fun e' he' => by cases he') (fun e' _ => hnone e') hvalid (by omega)
      rw [hstart] at hfollows
      exact ⟨k, hk, haccepted, drained_of_follows hA sessionHash src
        (fun x hx => hkeyed x (mem_cons_of_mem _ hx)) hfollows hsorted htimely⟩

/-! ### The invariant -/

def pairs (w : Sealing ι K) : List (ℕ × ℕ) :=
  w.draws.map fun d => (d.epoch, d.ctr)

structure Inv (A : TunnelCipher K) (w : Sealing ι K) : Prop where
  sorted : w.pairs.Pairwise Earlier
  drawn : ∀ p ∈ w.pairs, 0 < p.2 ∧ p.2 < 2 ^ 64 ∧ p.1 < 2 ^ 32 ∧ p.1 ≤ w.counterEpoch ∧
    (p.1 = w.counterEpoch → w.txCounter ≠ 0 → p.2 < w.txCounter)
  keyed : ∀ d ∈ w.draws, ∀ k wire, d.sealedAs = some (k, wire) → w.keyOf d.epoch = some k ∧
    ∃ randSeg ipPacket, wire = sealDatagram A k d.epoch d.ctr randSeg ipPacket
  installed : w.keyOf w.keyEpoch = some w.key
  later : ∀ e, w.keyEpoch < e → w.keyOf e = none
  places : ∀ t epoch ctr place ipPacket, w.sealers t = .drawn epoch ctr place ipPacket →
    ∃ d, w.draws[place]? = some d ∧ d.epoch = epoch ∧ d.ctr = ctr
  txCounter_lt : w.txCounter < 2 ^ 64
  epoch_lt : w.counterEpoch < 2 ^ 32
  epoch_pos : 0 < w.epoch

omit [DecidableEq ι] in
theorem inv_start (A : TunnelCipher K) (key : K) : Inv A (start key : Sealing ι K) where
  sorted := Pairwise.nil
  drawn p hp := absurd hp not_mem_nil
  keyed d hd := absurd hd not_mem_nil
  installed := by
    show (if 1 = 1 then some key else none) = some key
    rw [if_pos rfl]
  later e he := if_neg (Nat.ne_of_gt he)
  places t epoch ctr place ipPacket h := by cases h
  txCounter_lt := Nat.one_lt_two_pow (by decide)
  epoch_lt := Nat.one_lt_two_pow (by decide)
  epoch_pos := Nat.one_pos

theorem headers_sublist {draws : List (Draw K)}
    (h : ∀ d ∈ draws, ∀ k wire, d.sealedAs = some (k, wire) → header wire = (d.epoch, d.ctr)) :
    ((draws.filterMap fun d => d.sealedAs.map Prod.snd).map header).Sublist
      (draws.map fun d => (d.epoch, d.ctr)) := by
  induction draws with
  | nil => exact Sublist.slnil
  | cons d rest ih =>
      have hrest := ih fun d' hd' => h d' (mem_cons_of_mem _ hd')
      cases hsealed : d.sealedAs with
      | none =>
          rw [filterMap_cons_none (by rw [hsealed]; rfl)]
          exact hrest.cons _
      | some s =>
          rw [filterMap_cons_some (b := s.2) (by rw [hsealed]; rfl), map_cons, map_cons,
            h d mem_cons_self s.1 s.2 hsealed]
          exact hrest.cons_cons _

section

variable {A : TunnelCipher K} {w : Sealing ι K}

omit [DecidableEq ι]

theorem Inv.header_eq (h : Inv A w) {d : Draw K} (hd : d ∈ w.draws) {k : K} {wire : Bytes}
    (hsealed : d.sealedAs = some (k, wire)) : header wire = (d.epoch, d.ctr) := by
  obtain ⟨-, randSeg, ipPacket, rfl⟩ := h.keyed d hd k wire hsealed
  obtain ⟨-, hctr, hepoch, -, -⟩ := h.drawn (d.epoch, d.ctr) (mem_map_of_mem hd)
  rw [header, wireEpoch_sealDatagram A k randSeg ipPacket hepoch,
    wireCtr_sealDatagram A k randSeg ipPacket d.epoch hctr]

theorem Inv.keyed_wires (h : Inv A w) {wire : Bytes} (hwire : wire ∈ w.wires) :
    Keyed A w.keyOf wire := by
  obtain ⟨d, hd, hsealed⟩ := mem_filterMap.mp hwire
  obtain ⟨⟨k, wire'⟩, hsealed', rfl⟩ := Option.map_eq_some_iff.mp hsealed
  obtain ⟨hkey, randSeg, ipPacket, rfl⟩ := h.keyed d hd k wire' hsealed'
  obtain ⟨hpos, hctr, hepoch, -, -⟩ := h.drawn (d.epoch, d.ctr) (mem_map_of_mem hd)
  exact ⟨k, d.epoch, d.ctr, randSeg, ipPacket, rfl, hkey, hepoch, hpos, hctr⟩

theorem Inv.sound (hA : A.Lawful) (h : Inv A w) : w.Sound A where
  nodup := by
    refine h.sorted.imp ?_
    rintro a b hearlier rfl
    unfold Earlier at hearlier
    omega
  keyed d hd k wire hsealed := (h.keyed d hd k wire hsealed).1
  drained allowedFingerprints fp sessionHash src l hauth hl htimely := by
    refine drained_of_sorted hA hauth sessionHash src ?_ ?_ htimely
    · intro x hx
      refine h.keyed_wires ?_
      rw [← hl]
      exact mem_map_of_mem hx
    · rw [show (l.map fun x => header x.2) = (l.map Prod.snd).map header from by
        rw [map_map]; rfl, hl]
      exact h.sorted.sublist (headers_sublist fun d hd k wire => h.header_eq hd)

end

/-! ### Each step -/

section

variable {A : TunnelCipher K} {w : Sealing ι K}

theorem places_update {sealers : ι → Sealer} {draws : List (Draw K)} {t : ι} {s : Sealer}
    (h : ∀ t epoch ctr place ipPacket, sealers t = .drawn epoch ctr place ipPacket →
      ∃ d, draws[place]? = some d ∧ d.epoch = epoch ∧ d.ctr = ctr)
    (hs : ∀ epoch ctr place ipPacket, s = .drawn epoch ctr place ipPacket →
      ∃ d, draws[place]? = some d ∧ d.epoch = epoch ∧ d.ctr = ctr)
    (t' : ι) (epoch ctr place : ℕ) (ipPacket : Bytes)
    (ht' : Function.update sealers t s t' = .drawn epoch ctr place ipPacket) :
    ∃ d, draws[place]? = some d ∧ d.epoch = epoch ∧ d.ctr = ctr := by
  by_cases hsame : t' = t
  · subst hsame
    rw [Function.update_self] at ht'
    exact hs epoch ctr place ipPacket ht'
  · rw [Function.update_of_ne hsame] at ht'
    exact h t' epoch ctr place ipPacket ht'

theorem Inv.load (h : Inv A w) (t : ι) (ipPacket : Bytes) : Inv A (w.step A (.load t ipPacket)) := by
  unfold Sealing.step
  dsimp only
  split
  · split
    · exact h
    · exact ⟨h.sorted, h.drawn, h.keyed, h.installed, h.later,
        places_update h.places (fun _ _ _ _ hs => by cases hs), h.txCounter_lt, h.epoch_lt,
        h.epoch_pos⟩
  · exact h

theorem Inv.draw (h : Inv A w) {t : ι} (hguard : w.Orderly (.draw t)) :
    Inv A (w.step A (.draw t)) := by
  unfold Sealing.step
  unfold Orderly at hguard
  dsimp only at hguard ⊢
  split
  · rename_i epoch ipPacket hloaded
    rw [hloaded] at hguard
    obtain ⟨rfl, hwrapped⟩ := hguard
    have hlt := h.txCounter_lt
    refine ⟨?_, ?_, ?_, h.installed, h.later, ?_, Nat.mod_lt _ (by decide), h.epoch_lt, h.epoch_pos⟩
    · rw [pairs, map_append, pairwise_append]
      refine ⟨h.sorted, pairwise_singleton _ _, ?_⟩
      intro a ha b hb
      rw [map_singleton, mem_singleton] at hb
      subst hb
      obtain ⟨-, -, -, hle, hbelow⟩ := h.drawn a ha
      rcases hle.lt_or_eq with hearlier | hsame
      · exact Or.inl hearlier
      · exact Or.inr ⟨hsame, hbelow hsame hwrapped⟩
    · intro p hp
      show 0 < p.2 ∧ p.2 < 2 ^ 64 ∧ p.1 < 2 ^ 32 ∧ p.1 ≤ w.counterEpoch ∧
        (p.1 = w.counterEpoch → (w.txCounter + 1) % 2 ^ 64 ≠ 0 → p.2 < (w.txCounter + 1) % 2 ^ 64)
      rw [pairs, map_append] at hp
      rcases mem_append.mp hp with hold | hnew
      · obtain ⟨hpos, hctr, hepoch, hle, hbelow⟩ := h.drawn p hold
        refine ⟨hpos, hctr, hepoch, hle, fun hsame hnonzero => ?_⟩
        have := hbelow hsame hwrapped
        omega
      · rw [map_singleton, mem_singleton] at hnew
        subst hnew
        refine ⟨Nat.pos_of_ne_zero hwrapped, hlt, h.epoch_lt, le_rfl, fun _ hnonzero => ?_⟩
        dsimp only
        omega
    · intro d hd k wire hsealed
      rcases mem_append.mp hd with hold | hnew
      · exact h.keyed d hold k wire hsealed
      · rw [mem_singleton.mp hnew] at hsealed
        cases hsealed
    · refine places_update ?_ ?_
      · intro t' epoch' ctr place ipPacket' ht'
        obtain ⟨d, hd, hdata⟩ := h.places t' epoch' ctr place ipPacket' ht'
        obtain ⟨hplace, -⟩ := List.getElem?_eq_some_iff.mp hd
        exact ⟨d, (getElem?_append_left hplace).trans hd, hdata⟩
      · intro epoch' ctr place ipPacket' hs
        cases hs
        exact ⟨_, getElem?_concat_length, rfl, rfl⟩
  · exact h

theorem Inv.finish (h : Inv A w) {t : ι} {randSeg : Octets 8}
    (hguard : w.Orderly (.finish t randSeg)) : Inv A (w.step A (.finish t randSeg)) := by
  unfold Sealing.step
  unfold Orderly at hguard
  dsimp only at hguard ⊢
  split
  · rename_i epoch ctr place ipPacket hdrawn
    rw [hdrawn] at hguard
    have hepoch : epoch = w.keyEpoch := hguard
    obtain ⟨d, hd, hdepoch, hdctr⟩ := h.places t epoch ctr place ipPacket hdrawn
    -- the draws keep their epochs and counters
    have hpairs : (w.draws.modify place fun d =>
        { d with
          sealedAs := some (w.key, sealDatagram A w.key epoch ctr randSeg ipPacket) }).map
        (fun d => (d.epoch, d.ctr)) = w.pairs := by
      apply ext_getElem?
      intro i
      rw [pairs, getElem?_map, getElem?_map, getElem?_modify]
      cases w.draws[i]? with
      | none => rfl
      | some d' => by_cases hi : place = i <;> simp [hi]
    refine ⟨?_, ?_, ?_, h.installed, h.later, ?_, h.txCounter_lt, h.epoch_lt, h.epoch_pos⟩
    · rw [pairs, hpairs]
      exact h.sorted
    · intro p hp
      rw [pairs, hpairs] at hp
      exact h.drawn p hp
    · intro d' hd' k wire hsealed
      obtain ⟨i, hi⟩ := getElem?_of_mem hd'
      rw [getElem?_modify] at hi
      obtain ⟨d'', hd'', heq⟩ := Option.map_eq_some_iff.mp hi
      by_cases hplace : place = i
      · subst hplace
        rw [hd] at hd''
        cases hd''
        rw [if_pos rfl] at heq
        subst heq
        obtain ⟨rfl, rfl⟩ := Prod.mk.inj (Option.some.inj hsealed)
        refine ⟨?_, randSeg, ipPacket, ?_⟩
        · rw [hdepoch, hepoch]
          exact h.installed
        · rw [hdepoch, hdctr]
      · rw [if_neg hplace] at heq
        have heq' : d'' = d' := heq
        subst heq'
        exact h.keyed d'' (mem_of_getElem? hd'') k wire hsealed
    · refine places_update ?_ (fun _ _ _ _ hs => by cases hs)
      intro t' epoch' ctr' place' ipPacket' ht'
      obtain ⟨d', hd', hepoch', hctr'⟩ := h.places t' epoch' ctr' place' ipPacket' ht'
      rw [getElem?_modify, hd']
      by_cases hplace : place = place' <;> simp [hplace, hepoch', hctr']
  · exact h

theorem Inv.reset (h : Inv A w) {k : K} (hguard : w.Orderly (.reset k)) :
    Inv A (w.step A (.reset k)) := by
  have hwrap : w.epoch + 1 < 2 ^ 32 := hguard
  unfold Sealing.step
  dsimp only
  split
  · rename_i hidle
    have hcounter : w.counterEpoch = w.epoch := by rw [counterEpoch, hidle]
    have hkey : w.keyEpoch = w.epoch := by rw [keyEpoch, hidle]
    refine ⟨h.sorted, ?_, h.keyed, ?_, ?_, h.places, Nat.one_lt_two_pow (by decide), hwrap,
      h.epoch_pos⟩
    · intro p hp
      obtain ⟨hpos, hctr, hepoch, hle, -⟩ := h.drawn p hp
      rw [hcounter] at hle
      show 0 < p.2 ∧ p.2 < 2 ^ 64 ∧ p.1 < 2 ^ 32 ∧ p.1 ≤ w.epoch + 1 ∧
        (p.1 = w.epoch + 1 → 1 ≠ 0 → p.2 < 1)
      exact ⟨hpos, hctr, hepoch, by omega, fun hsame => by omega⟩
    · have hinstalled := h.installed
      rw [hkey] at hinstalled
      exact hinstalled
    · have hlater := h.later
      rw [hkey] at hlater
      exact hlater
  · exact h

theorem Inv.bump (h : Inv A w) : Inv A (w.step A .bump) := by
  unfold Sealing.step
  dsimp only
  split
  · rename_i k hreset
    have hcounter : w.counterEpoch = w.epoch + 1 := by rw [counterEpoch, hreset]
    have hkey : w.keyEpoch = w.epoch := by rw [keyEpoch, hreset]
    have hlt := h.epoch_lt
    rw [hcounter] at hlt
    rw [Nat.mod_eq_of_lt hlt]
    refine ⟨h.sorted, ?_, h.keyed, ?_, ?_, h.places, h.txCounter_lt, hlt, Nat.succ_pos _⟩
    · have hdrawn := h.drawn
      rw [hcounter] at hdrawn
      exact hdrawn
    · have hinstalled := h.installed
      rw [hkey] at hinstalled
      exact hinstalled
    · have hlater := h.later
      rw [hkey] at hlater
      exact hlater
  · exact h

theorem Inv.evict (h : Inv A w) : Inv A (w.step A .evict) := by
  unfold Sealing.step
  dsimp only
  split
  · rename_i k hbumped
    have hcounter : w.counterEpoch = w.epoch := by rw [counterEpoch, hbumped]
    have hkey : w.keyEpoch = w.epoch - 1 := by rw [keyEpoch, hbumped]
    obtain ⟨hsorted, hdrawn, hkeyed, hinstalled, hlater, hplaces, htx, hepoch, hpos⟩ := h
    rw [hcounter] at hdrawn hepoch
    rw [hkey] at hinstalled hlater
    exact ⟨hsorted, hdrawn, hkeyed, hinstalled, hlater, hplaces, htx, hepoch, hpos⟩
  · exact h

theorem Inv.install (h : Inv A w) : Inv A (w.step A .install) := by
  unfold Sealing.step
  dsimp only
  split
  · rename_i k hevicted
    have hcounter : w.counterEpoch = w.epoch := by rw [counterEpoch, hevicted]
    have hkey : w.keyEpoch = w.epoch - 1 := by rw [keyEpoch, hevicted]
    obtain ⟨hsorted, hdrawn, hkeyed, hinstalled, hlater, hplaces, htx, hepoch, hpos⟩ := h
    rw [hcounter] at hdrawn hepoch
    rw [hkey] at hlater
    refine ⟨hsorted, hdrawn, ?_, Function.update_self _ _ _, ?_, hplaces, htx, hepoch, hpos⟩
    · -- nothing of this epoch is sealed before its key is there
      intro d hd k' wire hsealed
      obtain ⟨hk', hwire⟩ := hkeyed d hd k' wire hsealed
      refine ⟨?_, hwire⟩
      have hne : d.epoch ≠ w.epoch := by
        intro hsame
        rw [hsame, hlater w.epoch (by omega)] at hk'
        cases hk'
      exact (Function.update_of_ne hne _ _).trans hk'
    · intro e he
      have hlt : w.epoch < e := he
      exact (Function.update_of_ne (Nat.ne_of_gt hlt) _ _).trans (hlater e (by omega))
  · exact h

theorem Inv.step (h : Inv A w) {act : SealingAct ι K} (hguard : w.Orderly act) :
    Inv A (w.step A act) := by
  cases act with
  | load t ipPacket => exact h.load t ipPacket
  | draw t => exact h.draw hguard
  | finish t randSeg => exact h.finish hguard
  | reset k => exact h.reset hguard
  | bump => exact h.bump
  | evict => exact h.evict
  | install => exact h.install

end

/-- In every interleaving of any number of sealers with any rotations, one after the other, every
state is sound as long as each sealer draws its counter and reads the key while they are for the
epoch it loaded. -/
theorem interleaving_sound {A : TunnelCipher K} (hA : A.Lawful) (key : K)
    (acts : List (SealingAct ι K)) (h : Always (step A) Orderly (start key) acts) :
    Always (step A) (fun w act => (w.step A act).Sound A) (start key) acts :=
  Always.of_invariant (Inv A) (fun _ _ hinv hguard => hinv.step hguard)
    (fun _ _ hinv hguard => (hinv.step hguard).sound hA) (inv_start A key) h

instance (w : Sealing ι K) (act : SealingAct ι K) : Decidable (w.Orderly act) :=
  match act with
  | .draw t =>
      match hs : w.sealers t with
      | .loaded epoch _ => decidable_of_iff (epoch = w.counterEpoch ∧ w.txCounter ≠ 0)
          (by rw [Orderly, hs])
      | .idle | .drawn .. => isTrue (by rw [Orderly, hs]; trivial)
  | .finish t _ =>
      match hs : w.sealers t with
      | .drawn epoch _ _ _ => decidable_of_iff (epoch = w.keyEpoch) (by rw [Orderly, hs])
      | .idle | .loaded .. => isTrue (by rw [Orderly, hs]; trivial)
  | .reset _ => inferInstanceAs (Decidable (w.epoch + 1 < 2 ^ 32))
  | .load .. | .bump | .evict | .install => inferInstanceAs (Decidable True)

/-- The pump seals a packet, the epoch is rotated, and both the pump and the watchdog seal one in the
new epoch, the pump having loaded it before its key was there. -/
def rotated : List (SealingAct Bool UInt8) :=
  [.load true [1], .draw true, .finish true (List.Vector.replicate 8 0),
    .reset 8, .bump, .load true [2], .draw true, .evict, .install,
    .load false [3], .draw false, .finish false (List.Vector.replicate 8 0),
    .finish true (List.Vector.replicate 8 0)]

theorem rotated_sound :
    Always (step .labelled) (fun w act => (w.step .labelled act).Sound .labelled) (start 7) rotated ∧
      (rotated.foldl (step .labelled) (start 7)).pairs = [(1, 1), (2, 1), (2, 2)] :=
  ⟨interleaving_sound (TunnelCipher.tagging_lawful _) 7 rotated (by decide +kernel),
    by decide +kernel⟩

/-- The pump seals a packet, loads the epoch for the next one, and the counter is reset before it
draws. -/
def racing : List (SealingAct Bool UInt8) :=
  [.load true [1], .draw true, .finish true (List.Vector.replicate 8 0),
    .load true [2], .reset 8, .draw true]

/-- The pair of the first datagram is drawn again. -/
theorem pair_drawn_twice :
    (racing.foldl (step .labelled) (start 7)).pairs = [(1, 1), (1, 1)] ∧
      ¬ Always (step .labelled) (fun w act => (w.step .labelled act).Sound .labelled) (start 7)
        racing := by
  have hpairs : (racing.foldl (step .labelled) (start 7)).pairs = [(1, 1), (1, 1)] := by
    decide +kernel
  refine ⟨hpairs, fun h => ?_⟩
  have hlast : (racing.foldl (step .labelled) (start 7)).Sound .labelled := h.2.2.2.2.2.1
  have hnodup := hlast.nodup
  rw [show ((racing.foldl (step .labelled) (start 7)).draws.map fun d => (d.epoch, d.ctr)) = _
    from hpairs] at hnodup
  exact absurd hnodup (by decide)

end Sealing

end Vantablack.Vpn
