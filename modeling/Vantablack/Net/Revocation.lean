import Vantablack.Layers.Kem
import Vantablack.Lib.Runs
import Vantablack.Lib.Table

/-!
The revocation list of `net/security.rs`. There is one slot for a fingerprint, and it holds the
entry with the largest timestamp; an entry counts for `revocationExpirySecs` from its timestamp on.
The lock of the list is poisoned by a call that panics, and every later call panics on it.
-/

namespace Vantablack.Net

open Lib

inductive RevocationReason where
  | keyCompromise
  | decommissioned
  | byzantineBehavior
  deriving DecidableEq

def RevocationReason.asStr : RevocationReason → String
  | keyCompromise => "key_compromise"
  | decommissioned => "decommissioned"
  | byzantineBehavior => "byzantine"

structure RevocationEntry where
  fingerprint : String
  timestamp : UInt64
  signature : Bytes
  reason : RevocationReason
  deriving DecidableEq

/-- What the issuer signs. -/
def RevocationEntry.message (e : RevocationEntry) : Bytes :=
  utf8 ("REVOKE:" ++ e.fingerprint ++ ":" ++ Nat.repr e.timestamp.toNat ++ ":" ++ e.reason.asStr)

def revocationExpirySecs : UInt64 := 90 * 86400

/-- The difference `now - timestamp` of two `u64`: with overflow checks it panics below zero, and
without them it wraps around. -/
def age (checked : Bool) (now timestamp : UInt64) : Option UInt64 :=
  if checked = true ∧ now < timestamp then none else some (now - timestamp)

/-- The entries behind the lock of `RevocationList`. -/
abbrev RevocationList := Table String RevocationEntry

namespace RevocationList

/-- An entry takes the slot of its fingerprint unless the one in it is at least as late. -/
def record (entries : RevocationList) (entry : RevocationEntry) : Bool × RevocationList :=
  match entries.lookup entry.fingerprint with
  | none => (true, entries.insert entry.fingerprint entry)
  | some existing =>
    if entry.timestamp ≤ existing.timestamp then (false, entries)
    else (true, entries.insert entry.fingerprint entry)

/-- `verifyPeerSignature` is that of `layers/l0_identity.rs`. -/
def revokeWithIssuerPk (verifyPeerSignature : Octets 32 → Bytes → Octets 64 → Bool)
    (entries : RevocationList) (entry : RevocationEntry) (issuerPk : Option (Octets 32)) :
    Bool × RevocationList :=
  match issuerPk with
  | none => record entries entry
  | some pk =>
    if h : entry.signature.length = 64 then
      if verifyPeerSignature pk entry.message ⟨entry.signature, h⟩ = true then record entries entry
      else (false, entries)
    else record entries entry

/-- `now` is the clock that the call reads, in seconds. -/
def isRevoked (checked : Bool) (entries : RevocationList) (fingerprint : String) (now : UInt64) :
    Option Bool :=
  match entries.lookup fingerprint with
  | none => some false
  | some entry => (age checked now entry.timestamp).map (decide <| · < revocationExpirySecs)

def pruneExpired (checked : Bool) (entries : RevocationList) (now : UInt64) :
    Option (ℕ × RevocationList) :=
  if entries.entries.any fun e => (age checked now e.2.timestamp).isNone then none
  else
    let kept := Table.retain
      (fun _ e => (age checked now e.timestamp).any (decide <| · < revocationExpirySecs)) entries
    some (Table.size entries - Table.size kept, kept)

/-! ### Runs -/

/-- The calls that the list takes. A revocation carries the key of its issuer. -/
inductive Call where
  | revoke (entry : RevocationEntry) (issuerPk : Octets 32)
  | isRevoked (fingerprint : String) (now : UInt64)
  | pruneExpired (now : UInt64)
  deriving DecidableEq

inductive Answer where
  | flag (b : Bool)
  | pruned (n : ℕ)
  deriving DecidableEq

/-- What a call returns and leaves behind; `none` is a panic. -/
def call (verifyPeerSignature : Octets 32 → Bytes → Octets 64 → Bool) (checked : Bool)
    (entries : RevocationList) : Call → Option (Answer × RevocationList)
  | .revoke entry issuerPk =>
    let (revoked, entries') := revokeWithIssuerPk verifyPeerSignature entries entry (some issuerPk)
    some (.flag revoked, entries')
  | .isRevoked fingerprint now =>
    (isRevoked checked entries fingerprint now).map fun b => (.flag b, entries)
  | .pruneExpired now => (pruneExpired checked entries now).map fun r => (.pruned r.1, r.2)

/-- A list in use: its entries (`none` when its lock is poisoned), what it was sent and under which
key, and the last clock that a call read. -/
structure Run where
  entries : Option RevocationList
  received : List (RevocationEntry × Octets 32)
  clock : UInt64

namespace Run

def new : Run where
  entries := some ∅
  received := []
  clock := 0

section

variable (verifyPeerSignature : Octets 32 → Bytes → Octets 64 → Bool) (checked : Bool)

/-- What a call returns; `none` is a panic. -/
def reply (s : Run) (c : Call) : Option Answer :=
  (s.entries.bind fun entries => call verifyPeerSignature checked entries c).map Prod.fst

def step (s : Run) (c : Call) : Run where
  entries := (s.entries.bind fun entries => call verifyPeerSignature checked entries c).map Prod.snd
  received := match c with
    | .revoke entry issuerPk => (entry, issuerPk) :: s.received
    | _ => s.received
  clock := match c with
    | .revoke _ _ => s.clock
    | .isRevoked _ now => now
    | .pruneExpired now => now

/-- The signature is valid under the key that the entry came with. -/
def Signed (r : RevocationEntry × Octets 32) : Prop :=
  ∃ h : r.1.signature.length = 64, verifyPeerSignature r.2 r.1.message ⟨r.1.signature, h⟩ = true

instance (r : RevocationEntry × Octets 32) : Decidable (Signed verifyPeerSignature r) :=
  inferInstanceAs (Decidable (∃ _ : _, _))

/-- There is no signature at all, or a valid one. -/
def Vouched (r : RevocationEntry × Octets 32) : Prop :=
  r.1.signature = [] ∨ Signed verifyPeerSignature r

instance (r : RevocationEntry × Octets 32) : Decidable (Vouched verifyPeerSignature r) :=
  inferInstanceAs (Decidable (_ ∨ _))

end

/-- Some received entry for the fingerprint that meets `P` has not expired at `now`. The age of an
entry from the future is zero. -/
def Revoked (P : RevocationEntry × Octets 32 → Prop) (received : List (RevocationEntry × Octets 32))
    (fingerprint : String) (now : UInt64) : Prop :=
  ∃ r ∈ received, r.1.fingerprint = fingerprint ∧ P r ∧
    now.toNat - r.1.timestamp.toNat < revocationExpirySecs.toNat

instance (P : RevocationEntry × Octets 32 → Prop) [DecidablePred P]
    (received : List (RevocationEntry × Octets 32)) (fingerprint : String) (now : UInt64) :
    Decidable (Revoked P received fingerprint now) :=
  inferInstanceAs (Decidable (∃ _ ∈ _, _))

section

variable (verifyPeerSignature : Octets 32 → Bytes → Octets 64 → Bool) (checked : Bool)
  (P : RevocationEntry × Octets 32 → Prop) [DecidablePred P]

/-- No call panics, and a fingerprint is revoked if an entry for it that meets `P` was received and
has not expired. -/
def Answered (s : Run) : Call → Prop
  | .isRevoked fingerprint now =>
    reply verifyPeerSignature checked s (.isRevoked fingerprint now) =
      some (.flag (decide (Revoked P s.received fingerprint now)))
  | c => (reply verifyPeerSignature checked s c).isSome = true

instance (s : Run) : ∀ c, Decidable (Answered verifyPeerSignature checked P s c)
  | .isRevoked _ _ => inferInstanceAs (Decidable (_ = _))
  | .revoke _ _ => inferInstanceAs (Decidable (_ = _))
  | .pruneExpired _ => inferInstanceAs (Decidable (_ = _))

end

/-- The clock never goes back and is never behind an entry that the call looks at, and a signature
is either left out or has its full length. -/
def Careful (s : Run) : Call → Prop
  | .revoke entry _ => entry.signature.length = 0 ∨ entry.signature.length = 64
  | .isRevoked fingerprint now =>
    s.clock ≤ now ∧ ∀ entries ∈ s.entries, ∀ e ∈ entries.lookup fingerprint, e.timestamp ≤ now
  | .pruneExpired now =>
    s.clock ≤ now ∧ ∀ entries ∈ s.entries, ∀ e ∈ entries.entries, e.2.timestamp ≤ now

instance (s : Run) : ∀ c, Decidable (Careful s c)
  | .revoke _ _ => inferInstanceAs (Decidable (_ ∨ _))
  | .isRevoked _ _ => inferInstanceAs (Decidable (_ ∧ _))
  | .pruneExpired _ => inferInstanceAs (Decidable (_ ∧ _))

end Run

theorem age_of_le {checked : Bool} {now timestamp : UInt64} (h : timestamp ≤ now) :
    age checked now timestamp = some (now - timestamp) :=
  if_neg fun hlt => absurd hlt.2 (UInt64.not_lt.mpr h)

theorem fresh_iff {now timestamp : UInt64} (h : timestamp ≤ now) :
    now - timestamp < revocationExpirySecs ↔
      now.toNat - timestamp.toNat < revocationExpirySecs.toNat := by
  rw [UInt64.lt_iff_toNat_lt, UInt64.toNat_sub_of_le _ _ h]

/-! ### What the entries keep -/

theorem record_cases (entries : RevocationList) (entry : RevocationEntry) :
    (∃ existing, entries.lookup entry.fingerprint = some existing ∧
        entry.timestamp ≤ existing.timestamp ∧ record entries entry = (false, entries)) ∨
      (∀ existing, entries.lookup entry.fingerprint = some existing →
          existing.timestamp < entry.timestamp) ∧
        record entries entry = (true, entries.insert entry.fingerprint entry) := by
  rw [record]
  cases hlookup : entries.lookup entry.fingerprint with
  | none =>
    refine Or.inr ⟨?_, rfl⟩
    intro existing h
    cases h
  | some existing =>
    by_cases hle : entry.timestamp ≤ existing.timestamp
    · exact Or.inl ⟨existing, rfl, hle, if_pos hle⟩
    · refine Or.inr ⟨?_, if_neg hle⟩
      intro _ h
      cases h
      exact UInt64.not_le.mp hle

theorem revokeWithIssuerPk_eq (verifyPeerSignature : Octets 32 → Bytes → Octets 64 → Bool)
    (entries : RevocationList) {entry : RevocationEntry} (pk : Octets 32)
    (hlen : entry.signature.length = 0 ∨ entry.signature.length = 64) :
    revokeWithIssuerPk verifyPeerSignature entries entry (some pk) =
      if Run.Vouched verifyPeerSignature (entry, pk) then record entries entry
      else (false, entries) := by
  rw [revokeWithIssuerPk]
  by_cases h : entry.signature.length = 64
  · have hne : entry.signature ≠ [] := by
      rintro heq
      rw [heq] at h
      cases h
    have hiff : Run.Vouched verifyPeerSignature (entry, pk) ↔
        verifyPeerSignature pk entry.message ⟨entry.signature, h⟩ = true := by
      constructor
      · rintro (heq | hsigned)
        · exact absurd heq hne
        · exact hsigned.2
      · exact fun hv => Or.inr ⟨h, hv⟩
    rw [dif_pos h]
    exact if_congr hiff.symm rfl rfl
  · have hnil : entry.signature = [] :=
      List.length_eq_zero_iff.mp (hlen.resolve_right h)
    have hvouched : Run.Vouched verifyPeerSignature (entry, pk) := Or.inl hnil
    rw [dif_neg h, if_pos hvouched]

/-- Every entry in a slot was received, and every entry that was received is covered by one in its
slot that is at least as late, or has expired. -/
structure Keeps (P : RevocationEntry × Octets 32 → Prop)
    (received : List (RevocationEntry × Octets 32)) (clock : UInt64) (entries : RevocationList) :
    Prop where
  stored : ∀ fingerprint e, entries.lookup fingerprint = some e →
    e.fingerprint = fingerprint ∧ ∃ r ∈ received, r.1 = e ∧ P r
  covered : ∀ r ∈ received, P r →
    (∃ e, entries.lookup r.1.fingerprint = some e ∧ r.1.timestamp ≤ e.timestamp) ∨
      r.1.timestamp.toNat + revocationExpirySecs.toNat ≤ clock.toNat

namespace Keeps

variable {P : RevocationEntry × Octets 32 → Prop} {received : List (RevocationEntry × Octets 32)}
  {clock now : UInt64} {entries : RevocationList} {r : RevocationEntry × Octets 32}

theorem nil : Keeps P [] clock ∅ where
  stored _ _ h := by cases h
  covered _ h := by cases h

theorem later (h : Keeps P received clock entries) (hnow : clock ≤ now) :
    Keeps P received now entries where
  stored := h.stored
  covered r hr hP := (h.covered r hr hP).imp_right fun hold => hold.trans hnow

theorem skip (h : Keeps P received clock entries) (hr : ¬ P r) :
    Keeps P (r :: received) clock entries where
  stored fingerprint e he := by
    obtain ⟨hfp, r', hr', hboth⟩ := h.stored fingerprint e he
    exact ⟨hfp, r', List.mem_cons_of_mem _ hr', hboth⟩
  covered r' hr' hP := by
    rcases List.mem_cons.mp hr' with rfl | hr'
    · exact absurd hP hr
    · exact h.covered r' hr' hP

theorem record (h : Keeps P received clock entries) (hr : P r) :
    Keeps P (r :: received) clock (record entries r.1).2 := by
  have hstored : ∀ fingerprint e, entries.lookup fingerprint = some e →
      e.fingerprint = fingerprint ∧ ∃ r' ∈ r :: received, r'.1 = e ∧ P r' := by
    intro fingerprint e he
    obtain ⟨hfp, r', hr', hboth⟩ := h.stored fingerprint e he
    exact ⟨hfp, r', List.mem_cons_of_mem _ hr', hboth⟩
  rcases record_cases entries r.1 with ⟨existing, hex, hle, heq⟩ | ⟨hlater, heq⟩
  · rw [heq]
    refine ⟨hstored, fun r' hr' hP => ?_⟩
    rcases List.mem_cons.mp hr' with rfl | hr'
    · exact Or.inl ⟨existing, hex, hle⟩
    · exact h.covered r' hr' hP
  · rw [heq]
    refine ⟨fun fingerprint e he => ?_, fun r' hr' hP => ?_⟩
    · rcases Table.lookup_insert_eq_some.mp he with ⟨rfl, rfl⟩ | ⟨-, hold⟩
      · exact ⟨rfl, r, List.mem_cons_self, rfl, hr⟩
      · exact hstored fingerprint e hold
    -- an entry for another fingerprint is covered as before, and the new one is at least as late
    -- as those of its own
    · by_cases hfp : r'.1.fingerprint = r.1.fingerprint
      · have hself : (entries.insert r.1.fingerprint r.1).lookup r'.1.fingerprint = some r.1 := by
          rw [hfp, AList.lookup_insert]
        rcases List.mem_cons.mp hr' with rfl | hr'
        · exact Or.inl ⟨r'.1, hself, le_rfl⟩
        · refine (h.covered r' hr' hP).imp_left ?_
          rintro ⟨e, he, hle⟩
          exact ⟨r.1, hself, hle.trans (hlater e (hfp ▸ he)).le⟩
      · rcases List.mem_cons.mp hr' with rfl | hr'
        · exact absurd rfl hfp
        · refine (h.covered r' hr' hP).imp_left ?_
          rintro ⟨e, he, hle⟩
          exact ⟨e, Table.lookup_insert_eq_some.mpr (Or.inr ⟨hfp, he⟩), hle⟩

theorem pruneExpired (h : Keeps P received clock entries) (hnow : clock ≤ now)
    (hpast : ∀ e ∈ entries.entries, e.2.timestamp ≤ now) (checked : Bool) :
    ∃ r, pruneExpired checked entries now = some r ∧ Keeps P received now r.2 := by
  have hage : (entries.entries.any fun e => (age checked now e.2.timestamp).isNone) = false := by
    rw [List.any_eq_false]
    intro e he
    rw [age_of_le (hpast e he)]
    exact Bool.false_ne_true
  rw [RevocationList.pruneExpired, if_neg (by rw [hage]; exact Bool.false_ne_true)]
  refine ⟨_, rfl, fun fingerprint e he => h.stored _ e (Table.lookup_retain.mp he).1, ?_⟩
  intro r hr hP
  rcases h.covered r hr hP with ⟨e, he, hle⟩ | hold
  · have hmem : (⟨r.1.fingerprint, e⟩ : Sigma fun _ => RevocationEntry) ∈ entries.entries :=
      AList.mem_lookup_iff.mp he
    by_cases hfresh : now - e.timestamp < revocationExpirySecs
    · refine Or.inl ⟨e, Table.lookup_retain.mpr ⟨he, ?_⟩, hle⟩
      rw [age_of_le (hpast _ hmem)]
      exact decide_eq_true hfresh
    · have hpast' : e.timestamp ≤ now := hpast _ hmem
      rw [fresh_iff hpast'] at hfresh
      have hle' : r.1.timestamp.toNat ≤ e.timestamp.toNat := hle
      have hnow' : e.timestamp.toNat ≤ now.toNat := hpast'
      exact Or.inr (by omega)
  · exact Or.inr (hold.trans hnow)

theorem isRevoked [DecidablePred P] (h : Keeps P received clock entries) (hnow : clock ≤ now)
    {fingerprint : String}
    (hpast : ∀ e, entries.lookup fingerprint = some e → e.timestamp ≤ now) (checked : Bool) :
    isRevoked checked entries fingerprint now =
      some (decide (Run.Revoked P received fingerprint now)) := by
  have hcovered : Run.Revoked P received fingerprint now →
      ∃ e, entries.lookup fingerprint = some e ∧
        now.toNat - e.timestamp.toNat < revocationExpirySecs.toNat := by
    rintro ⟨r, hr, rfl, hP, hlt⟩
    rcases h.covered r hr hP with ⟨e, he, hle⟩ | hold
    · have hle' : r.1.timestamp.toNat ≤ e.timestamp.toNat := hle
      exact ⟨e, he, by omega⟩
    · have hnow' : clock.toNat ≤ now.toNat := hnow
      omega
  rw [RevocationList.isRevoked]
  cases hlookup : entries.lookup fingerprint with
  | none =>
    have hnot : ¬ Run.Revoked P received fingerprint now := by
      intro hrev
      obtain ⟨e, he, -⟩ := hcovered hrev
      rw [hlookup] at he
      cases he
    rw [decide_eq_false hnot]
  | some e =>
    have hle := hpast e hlookup
    have hiff : now - e.timestamp < revocationExpirySecs ↔
        Run.Revoked P received fingerprint now := by
      rw [fresh_iff hle]
      constructor
      · intro hlt
        obtain ⟨hfp, r, hr, rfl, hP⟩ := h.stored fingerprint e hlookup
        exact ⟨r, hr, hfp, hP, hlt⟩
      · intro hrev
        obtain ⟨e', he', hlt⟩ := hcovered hrev
        rw [hlookup] at he'
        cases he'
        exact hlt
    dsimp only
    rw [age_of_le hle, Option.map_some, decide_eq_decide.mpr hiff]

end Keeps

/-! ### What a list answers -/

namespace Run

variable {verifyPeerSignature : Octets 32 → Bytes → Octets 64 → Bool} {checked : Bool}

/-- The lock is not poisoned, and the entries keep what was received. -/
def Sound (P : RevocationEntry × Octets 32 → Prop) (s : Run) : Prop :=
  ∃ entries, s.entries = some entries ∧ Keeps P s.received s.clock entries

theorem sound_new (P : RevocationEntry × Octets 32 → Prop) : Sound P new :=
  ⟨∅, rfl, .nil⟩

theorem outcome_of_call {s : Run} {entries entries' : RevocationList} {c : Call} {a : Answer}
    (hs : s.entries = some entries)
    (hc : call verifyPeerSignature checked entries c = some (a, entries')) :
    reply verifyPeerSignature checked s c = some a ∧
      (step verifyPeerSignature checked s c).entries = some entries' := by
  have hbind : (s.entries.bind fun entries => call verifyPeerSignature checked entries c) =
      some (a, entries') := by
    rw [hs, Option.bind_some, hc]
  exact ⟨congrArg (Option.map Prod.fst) hbind, congrArg (Option.map Prod.snd) hbind⟩

theorem Sound.answered {s : Run} (h : Sound (Vouched verifyPeerSignature) s) (checked : Bool)
    (c : Call) (hc : Careful s c) :
    Answered verifyPeerSignature checked (Vouched verifyPeerSignature) s c ∧
      Sound (Vouched verifyPeerSignature) (step verifyPeerSignature checked s c) := by
  obtain ⟨entries, hentries, hkeeps⟩ := h
  cases c with
  | revoke entry pk =>
    have hcall : call verifyPeerSignature checked entries (.revoke entry pk) =
        some (.flag (revokeWithIssuerPk verifyPeerSignature entries entry (some pk)).1,
          (revokeWithIssuerPk verifyPeerSignature entries entry (some pk)).2) := rfl
    obtain ⟨hreply, hnext⟩ := outcome_of_call hentries hcall
    refine ⟨Option.isSome_of_mem hreply, _, hnext, ?_⟩
    · rw [revokeWithIssuerPk_eq verifyPeerSignature entries pk hc]
      by_cases hv : Vouched verifyPeerSignature (entry, pk)
      · rw [if_pos hv]
        exact hkeeps.record (r := (entry, pk)) hv
      · rw [if_neg hv]
        exact hkeeps.skip hv
  | isRevoked fingerprint now =>
    have hcall : call verifyPeerSignature checked entries (.isRevoked fingerprint now) =
        some (.flag (decide (Revoked (Vouched verifyPeerSignature) s.received fingerprint now)),
          entries) := by
      rw [call, hkeeps.isRevoked hc.1 (hc.2 entries hentries) checked]
      rfl
    obtain ⟨hreply, hnext⟩ := outcome_of_call hentries hcall
    exact ⟨hreply, entries, hnext, hkeeps.later hc.1⟩
  | pruneExpired now =>
    obtain ⟨r, hr, hkept⟩ := hkeeps.pruneExpired hc.1 (hc.2 entries hentries) checked
    have hcall : call verifyPeerSignature checked entries (.pruneExpired now) =
        some (.pruned r.1, r.2) := by
      rw [call, hr]
      rfl
    obtain ⟨hreply, hnext⟩ := outcome_of_call hentries hcall
    exact ⟨Option.isSome_of_mem hreply, r.2, hnext, hkept⟩

theorem Sound.of_careful {calls : List Call}
    (h : Always (step verifyPeerSignature checked) Careful new calls) :
    Sound (Vouched verifyPeerSignature) (calls.foldl (step verifyPeerSignature checked) new) :=
  h.invariant (Sound (Vouched verifyPeerSignature)) (fun _ c hs hc => (hs.answered _ c hc).2)
    (sound_new _)

/-- In a careful run no call panics and a fingerprint is revoked exactly while an entry for it that
is unsigned or has a valid signature has not expired. Two careful runs that received the same
entries, in whatever order, answer alike. -/
theorem answered_of_careful (verifyPeerSignature : Octets 32 → Bytes → Octets 64 → Bool)
    (checked : Bool) {calls calls' : List Call}
    (h : Always (step verifyPeerSignature checked) Careful new calls)
    (h' : Always (step verifyPeerSignature checked) Careful new calls') :
    Always (step verifyPeerSignature checked)
        (Answered verifyPeerSignature checked (Vouched verifyPeerSignature)) new calls ∧
      let s := calls.foldl (step verifyPeerSignature checked) new
      let s' := calls'.foldl (step verifyPeerSignature checked) new
      (∀ r, r ∈ s.received ↔ r ∈ s'.received) →
        ∀ fingerprint now, Careful s (.isRevoked fingerprint now) →
          Careful s' (.isRevoked fingerprint now) →
          reply verifyPeerSignature checked s (.isRevoked fingerprint now) =
            reply verifyPeerSignature checked s' (.isRevoked fingerprint now) := by
  constructor
  · exact Always.of_invariant (Sound (Vouched verifyPeerSignature))
      (fun _ c hs hc => (hs.answered _ c hc).2) (fun _ c hs hc => (hs.answered _ c hc).1)
      (sound_new _) h
  · intro s s' hsame fingerprint now hs hs'
    have hanswer := ((Sound.of_careful h).answered checked _ hs).1
    have hanswer' := ((Sound.of_careful h').answered checked _ hs').1
    have hiff : Revoked (Vouched verifyPeerSignature) s.received fingerprint now ↔
        Revoked (Vouched verifyPeerSignature) s'.received fingerprint now :=
      exists_congr fun r => and_congr_left' (hsame r)
    rw [Answered] at hanswer hanswer'
    rw [hanswer, hanswer', decide_eq_decide.mpr hiff]

/-- An entry for one fingerprint; `length` is that of a signature that nobody made. -/
def entryAt (timestamp : UInt64) (length : ℕ) : RevocationEntry where
  fingerprint := "deadbeef12345678"
  timestamp := timestamp
  signature := List.replicate length 0
  reason := .keyCompromise

def zeroKey : Octets 32 := ⟨List.replicate 32 0, rfl⟩

theorem answered_of_careful_swapped :
    let reject : Octets 32 → Bytes → Octets 64 → Bool := fun _ _ _ => false
    let early : Call := .revoke (entryAt 1000 0) zeroKey
    let late : Call := .revoke (entryAt 9000 0) zeroKey
    let forged : Call := .revoke (entryAt 9500 64) zeroKey
    Always (step reject true) (Answered reject true (Vouched reject)) new
        [early, .pruneExpired 8000, late, forged] ∧
      reply reject true ([early, .pruneExpired 8000, late, forged].foldl (step reject true) new)
          (.isRevoked "deadbeef12345678" 7785000) =
        reply reject true ([forged, late, early].foldl (step reject true) new)
          (.isRevoked "deadbeef12345678" 7785000) := by
  intro reject early late forged
  have hcareful : Always (step reject true) Careful new
      [early, .pruneExpired 8000, late, forged] := by
    decide +kernel
  have hcareful' : Always (step reject true) Careful new [forged, late, early] := by
    decide +kernel
  have hboth := answered_of_careful reject true hcareful hcareful'
  refine ⟨hboth.1, hboth.2 ?_ _ _ (by decide +kernel) (by decide +kernel)⟩
  intro r
  show r ∈ [_, _, _] ↔ r ∈ [_, _, _]
  simp only [List.mem_cons, List.not_mem_nil]
  tauto

/-- Where no signature is valid, an entry without one revokes all the same, and so does one with a
signature that is a byte short. With overflow checks, an entry from the future makes the call
panic. -/
theorem not_answered_by_signatures :
    let reject : Octets 32 → Bytes → Octets 64 → Bool := fun _ _ _ => false
    ¬ Always (step reject true) (Answered reject true (Signed reject)) new
        [.revoke (entryAt 1000 0) zeroKey, .isRevoked "deadbeef12345678" 1000] ∧
      ¬ Always (step reject true) (Answered reject true (Signed reject)) new
        [.revoke (entryAt 1000 63) zeroKey, .isRevoked "deadbeef12345678" 1000] ∧
      reply reject true (step reject true new (.revoke (entryAt 1000 0) zeroKey))
        (.isRevoked "deadbeef12345678" 999) = none := by
  decide +kernel

end Run

end RevocationList

end Vantablack.Net
