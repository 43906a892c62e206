import Vantablack.Ice.Covered
import Vantablack.Turn.TwoRuns

/-!
What a TURN request makes of bytes that its digest does not cover, and what checks and requests
with the same bytes under the digest do to the state of agents and servers.
-/

namespace Vantablack.Turn

open Lib Layers Receive Net Stun Ice.IceAgent

/-- The long-term credentials that a request names. -/
structure Credentials where
  username : String
  realm : String
  nonce : String

def Credentials.ofMessage (msg : Message) : Option Credentials :=
  match msg.get Attr.username, msg.realm, msg.nonce with
  | some (.username u), some realm, some nonce => some ⟨fromUtf8Lossy u, realm, nonce⟩
  | _, _, _ => none

variable (d : Digests)

/-- A request that some server may take for one of a user's with these credentials. -/
def Asks (buf : Bytes) (c : Credentials) (op : Op) : Prop :=
  parseChannelData buf = none ∧ ∃ msg, parse buf = .ok msg ∧
    Credentials.ofMessage msg = some c ∧ Op.ofMessage msg = some op ∧
      ∃ password, verifyIntegrity d buf (longTermKey d c.username c.realm password).toList = .ok ()

/-- The two ask for the same with the same credentials. -/
def SameAsk (b b' : Bytes) : Prop := ∀ c op, Asks d b c op ↔ Asks d b' c op

/-- The same allocations whatever of the two datagrams arrives. -/
def SameAllocations (b b' : Bytes) : Prop :=
  ∀ (s : TurnServer) (draw : Draw) (src : SocketAddr) (now : ℕ),
    (s.handle d draw b src now).1.allocations = (s.handle d draw b' src now).1.allocations

namespace TurnServer

variable {d}

theorem authenticate_isSome {s : TurnServer} {raw : Bytes} {msg : Message} :
    (s.authenticate d raw msg).isSome ↔
      ∃ c, Credentials.ofMessage msg = some c ∧ c.realm = s.realm ∧ c.nonce ∈ s.nonces ∧
        ∃ password, s.users.lookup c.username = some password ∧
          verifyIntegrity d raw (longTermKey d c.username c.realm password).toList = .ok () := by
  unfold authenticate Credentials.ofMessage
  constructor
  · intro h
    split at h
    · rename_i u hu
      split at h
      · rename_i realm nonce hrealm hnonce
        split at h
        · rename_i hknown
          split at h
          · rename_i password hpassword
            dsimp only at h
            split at h
            · rename_i hverify
              rw [hu, hrealm, hnonce]
              exact ⟨_, rfl, hknown.1, hknown.2, password, hpassword, hverify⟩
            · cases h
          · cases h
        · cases h
      · cases h
    · cases h
  · rintro ⟨c, hc, hrealm, hnonce, password, hpassword, hverify⟩
    split at hc
    · rename_i u realm nonce hu hr hn
      cases hc
      simp only [hu, hr, hn]
      rw [if_pos ⟨hrealm, hnonce⟩, hpassword]
      dsimp only
      rw [hverify]
      rfl
    · cases hc

theorem asked_eq_some {s : TurnServer} {raw : Bytes} {op : Op} :
    s.asked d raw = some op ↔
      parseChannelData raw = none ∧ ∃ msg, parse raw = .ok msg ∧
        (s.authenticate d raw msg).isSome ∧ Op.ofMessage msg = some op := by
  unfold asked
  cases hchannel : parseChannelData raw with
  | some frame => simp
  | none =>
      cases hparse : parse raw with
      | error e => simp
      | ok msg => by_cases hauth : (s.authenticate d raw msg).isSome <;> simp [hauth]

end TurnServer

theorem parseChannelData_of_parse {buf : Bytes} {m : Message} (h : parse buf = .ok m) :
    parseChannelData buf = none ↔ ¬ IsChannel m.typ.value := by
  obtain ⟨hheader, hdeclared, htyp, -, -⟩ := parse_eq_ok h
  have hheaderLen : headerLen = 20 := rfl
  unfold declaredLength at hdeclared
  rw [htyp]
  simp only [parseChannelData]
  rw [if_neg (by omega)]
  split
  · rename_i hrange
    exact iff_of_true rfl hrange
  · rename_i hrange
    rw [if_neg (by omega)]
    exact iff_of_false (Option.some_ne_none _) (not_not.mpr (not_not.mp hrange))

/-! ### Servers that tell two requests apart -/

def Op.method : Op → Method
  | .allocate _ => .allocate
  | .release => .refresh
  | .refresh _ => .refresh
  | .permit _ => .createPermission
  | .bind _ _ => .channelBind

theorem Op.method_of_ofMessage {msg : Message} {op : Op} (h : ofMessage msg = some op) :
    op.method = msg.typ.method := by
  unfold ofMessage at h
  split at h
  · cases h
  split at h
  · rename_i hmethod
    split at h
    · cases h
      exact hmethod.symm
    · cases h
  split at h
  · rename_i hmethod
    split at h
    · cases h
      exact hmethod.symm
    · cases h
      exact hmethod.symm
  split at h
  · rename_i hmethod
    obtain ⟨peer, -, hpeer⟩ := Option.bind_eq_some_iff.mp h
    split at hpeer
    · cases hpeer
    · cases hpeer
      exact hmethod.symm
  split at h
  · rename_i hmethod
    split at h
    · split at h
      · cases h
        exact hmethod.symm
      · cases h
    · cases h
  · cases h

def clientSide : SocketAddr := { ip := .v4 (Block.zeroPadded 4 [1]), port := 0 }

def relaySide : IpAddr := .v4 (Block.zeroPadded 4 [])

/-- The server of one user with one outstanding nonce and one relay port. -/
def knowing (c : Credentials) (password : String) (table : Table SocketAddr ServerAllocation) :
    TurnServer :=
  { TurnServer.new c.realm (AList.insert c.username password ∅) relaySide 0 0 with
    allocations := table
    nonces := AList.insert c.nonce 0 ∅ }

/-- The allocation that a request is tried on: nothing is permitted or bound, and it lasts for a
second longer than a Refresh would make it last. -/
def Op.subject (op : Op) : ServerAllocation :=
  .fresh 0 (match op with
    | .refresh secs => secs.toNat + 1
    | _ => 1)

section Knowing

variable {d} {buf : Bytes} {c : Credentials} {op : Op}

theorem asks_of_asked_knowing {password : String} {table : Table SocketAddr ServerAllocation}
    (h : (knowing c password table).asked d buf = some op) : Asks d buf c op := by
  obtain ⟨hchannel, msg, hparse, hauth, hop⟩ := TurnServer.asked_eq_some.mp h
  obtain ⟨c', hc', hrealm, hnonce, password', hpassword, hverify⟩ :=
    TurnServer.authenticate_isSome.mp hauth
  have hrealm' : c'.realm = c.realm := hrealm
  have hnonce' : c'.nonce = c.nonce := by
    rcases AList.mem_insert _ |>.mp hnonce with heq | hmem
    · exact heq
    · exact absurd hmem (AList.notMem_empty _)
  have husername : c'.username = c.username := by
    rcases Table.lookup_insert_eq_some.mp hpassword with ⟨heq, -⟩ | ⟨-, hmem⟩
    · exact heq
    · cases hmem
  have heq : c' = c := by
    obtain ⟨u, r, n⟩ := c'
    obtain ⟨u', r', n'⟩ := c
    cases husername
    cases hrealm'
    cases hnonce'
    rfl
  subst heq
  exact ⟨hchannel, msg, hparse, hc', hop, password', hverify⟩

theorem asked_knowing (h : Asks d buf c op) : ∃ password, ∀ table,
    (knowing c password table).asked d buf = some op := by
  obtain ⟨hchannel, msg, hparse, hc, hop, password, hverify⟩ := h
  refine ⟨password, fun table => TurnServer.asked_eq_some.mpr ⟨hchannel, msg, hparse, ?_, hop⟩⟩
  exact TurnServer.authenticate_isSome.mpr ⟨c, hc, rfl, (AList.mem_insert _).mpr (.inl rfl),
    password, AList.lookup_insert _, hverify⟩

theorem subject_after {op' : Op} (hmethod : op'.method = op.method)
    (hop : ∀ secs, op ≠ .allocate secs) (h : op.subject.after 0 op' = op.subject.after 0 op) :
    op' = op := by
  cases op with
  | allocate secs => exact absurd rfl (hop secs)
  | release =>
      cases op' with
      | release => rfl
      | refresh secs => cases h
      | allocate secs => exact absurd hmethod (by decide : Method.allocate ≠ Method.refresh)
      | permit ip => exact absurd hmethod (by decide : Method.createPermission ≠ Method.refresh)
      | bind channel peer => exact absurd hmethod (by decide : Method.channelBind ≠ Method.refresh)
  | refresh secs =>
      cases op' with
      | release => cases h
      | refresh secs' =>
          have hexpiry := congrArg ServerAllocation.expiresAt (Option.some.inj h)
          change 0 + secs'.toNat = 0 + secs.toNat at hexpiry
          rw [UInt32.toNat_inj.mp (Nat.add_left_cancel hexpiry)]
      | allocate secs => exact absurd hmethod (by decide : Method.allocate ≠ Method.refresh)
      | permit ip => exact absurd hmethod (by decide : Method.createPermission ≠ Method.refresh)
      | bind channel peer => exact absurd hmethod (by decide : Method.channelBind ≠ Method.refresh)
  | permit ip =>
      cases op' with
      | permit ip' =>
          have hlookup := congrArg (fun a => a.permissions.lookup ip') (Option.some.inj h)
          rcases Table.lookup_insert_eq_some.mp (hlookup.symm.trans (AList.lookup_insert _)) with
            ⟨heq, -⟩ | ⟨-, hnone⟩
          · rw [heq]
          · cases hnone
      | release => cases h
      | allocate secs =>
          exact absurd hmethod (by decide : Method.allocate ≠ Method.createPermission)
      | refresh secs => exact absurd hmethod (by decide : Method.refresh ≠ Method.createPermission)
      | bind channel peer =>
          exact absurd hmethod (by decide : Method.channelBind ≠ Method.createPermission)
  | bind channel peer =>
      cases op' with
      | bind channel' peer' =>
          have hlookup := congrArg (fun a => a.channels.lookup channel') (Option.some.inj h)
          rcases Table.lookup_insert_eq_some.mp (hlookup.symm.trans (AList.lookup_insert _)) with
            ⟨heq, hpeer⟩ | ⟨-, hnone⟩
          · rw [heq, hpeer]
          · cases hnone
      | release => cases h
      | allocate secs => exact absurd hmethod (by decide : Method.allocate ≠ Method.channelBind)
      | refresh secs => exact absurd hmethod (by decide : Method.refresh ≠ Method.channelBind)
      | permit ip =>
          exact absurd hmethod (by decide : Method.createPermission ≠ Method.channelBind)

theorem subject_after_ne (hop : ∀ secs, op ≠ .allocate secs) :
    op.subject.after 0 op ≠ some op.subject := by
  cases op with
  | allocate secs => exact absurd rfl (hop secs)
  | release => nofun
  | refresh secs =>
      intro h
      have hexpiry := congrArg ServerAllocation.expiresAt (Option.some.inj h)
      change 0 + secs.toNat = secs.toNat + 1 at hexpiry
      omega
  | permit ip =>
      intro h
      have hlookup := congrArg (fun a => a.permissions.lookup ip) (Option.some.inj h)
      cases (AList.lookup_insert _).symm.trans hlookup
  | bind channel peer =>
      intro h
      have hlookup := congrArg (fun a => a.channels.lookup channel) (Option.some.inj h)
      cases (AList.lookup_insert _).symm.trans hlookup

variable {b b' : Bytes} {password : String}

theorem asked_allocate (hsame : SameAllocations d b b') {secs : UInt32}
    (hasked : (knowing c password ∅).asked d b = some (.allocate secs))
    (hmethod : ∀ op, (knowing c password ∅).asked d b' = some op → op.method = .allocate) :
    (knowing c password ∅).asked d b' = some (.allocate secs) := by
  have hlookup := congrArg (AList.lookup clientSide)
    (hsame (knowing c password ∅) { clock := 0, random := Block.zeroPadded 16 [] } clientSide 0)
  have hexpire : (knowing c password ∅).expire 0 = knowing c password ∅ := rfl
  have hport : (knowing c password ∅).portFor clientSide = some 0 := rfl
  have hself : ¬ clientSide.ip = (knowing c password ∅).relayIp :=
    (by decide : clientSide.ip ≠ relaySide)
  rw [TurnServer.allocations_handle_granted, TurnServer.allocations_handle_granted, hexpire,
    hasked] at hlookup
  dsimp only at hlookup
  rw [TurnServer.lookup_granted_allocate, if_neg hself, hport, Option.map_some] at hlookup
  cases hasked' : (knowing c password ∅).asked d b' with
  | none =>
      rw [hasked'] at hlookup
      cases hlookup
  | some op =>
      have hm := hmethod op hasked'
      rw [hasked'] at hlookup
      cases op with
      | allocate secs' =>
          dsimp only at hlookup
          rw [TurnServer.lookup_granted_allocate, if_neg hself, hport, Option.map_some] at hlookup
          have hexpiry := congrArg ServerAllocation.expiresAt (Option.some.inj hlookup)
          change 0 + secs.toNat = 0 + secs'.toNat at hexpiry
          rw [UInt32.toNat_inj.mp (Nat.add_left_cancel hexpiry)]
      | release => exact absurd hm (by decide : Method.refresh ≠ Method.allocate)
      | refresh secs' => exact absurd hm (by decide : Method.refresh ≠ Method.allocate)
      | permit ip => exact absurd hm (by decide : Method.createPermission ≠ Method.allocate)
      | bind channel peer => exact absurd hm (by decide : Method.channelBind ≠ Method.allocate)

theorem not_allocate_of_method (hop : ∀ secs, op ≠ .allocate secs) {op' : Op}
    (hmethod : op'.method = op.method) : ∀ secs, op' ≠ .allocate secs := by
  rintro secs rfl
  cases op with
  | allocate secs' => exact hop secs' rfl
  | release => exact absurd hmethod (by decide : Method.allocate ≠ Method.refresh)
  | refresh secs' => exact absurd hmethod (by decide : Method.allocate ≠ Method.refresh)
  | permit ip => exact absurd hmethod (by decide : Method.allocate ≠ Method.createPermission)
  | bind channel peer => exact absurd hmethod (by decide : Method.allocate ≠ Method.channelBind)

theorem asked_subject (hsame : SameAllocations d b b') (hop : ∀ secs, op ≠ .allocate secs)
    (hasked : ∀ table, (knowing c password table).asked d b = some op)
    (hmethod : ∀ table op', (knowing c password table).asked d b' = some op' →
      op'.method = op.method) : ∃ table, (knowing c password table).asked d b' = some op := by
  let table : Table SocketAddr ServerAllocation := AList.insert clientSide op.subject ∅
  have hlookup := congrArg (AList.lookup clientSide)
    (hsame (knowing c password table) { clock := 0, random := Block.zeroPadded 16 [] } clientSide 0)
  have hlive : 0 < op.subject.expiresAt := by
    cases op <;> exact Nat.succ_pos _
  have hexpired : ((knowing c password table).expire 0).allocations.lookup clientSide =
      some op.subject :=
    TurnServer.lookup_expire.mpr ⟨op.subject, AList.lookup_insert _, hlive, rfl⟩
  have hasked₀ : ((knowing c password table).expire 0).asked d b = some op := hasked _
  rw [TurnServer.allocations_handle_granted, TurnServer.allocations_handle_granted, hasked₀]
    at hlookup
  dsimp only at hlookup
  rw [TurnServer.lookup_granted hop, hexpired, Option.bind_some] at hlookup
  refine ⟨((knowing c password table).expire 0).allocations, ?_⟩
  change ((knowing c password table).expire 0).asked d b' = some op
  cases hasked' : ((knowing c password table).expire 0).asked d b' with
  | none =>
      rw [hasked'] at hlookup
      exact absurd (hlookup.trans hexpired) (subject_after_ne hop)
  | some op' =>
      have hm : op'.method = op.method := hmethod _ op' hasked'
      rw [hasked'] at hlookup
      dsimp only at hlookup
      rw [TurnServer.lookup_granted (not_allocate_of_method hop hm), hexpired, Option.bind_some]
        at hlookup
      rw [subject_after hm hop hlookup.symm]

theorem asks_of_sameAllocations (htyp : ∀ msg msg', parse b = .ok msg → parse b' = .ok msg' →
    msg.typ = msg'.typ) (hsame : SameAllocations d b b') (h : Asks d b c op) : Asks d b' c op := by
  obtain ⟨password, hasked⟩ := asked_knowing h
  have hmethod : ∀ table op', (knowing c password table).asked d b' = some op' →
      op'.method = op.method := by
    intro table op' hop'
    obtain ⟨-, msg, hparse, -, hop⟩ := TurnServer.asked_eq_some.mp (hasked table)
    obtain ⟨-, msg', hparse', -, hmsg'⟩ := TurnServer.asked_eq_some.mp hop'
    rw [Op.method_of_ofMessage hop, Op.method_of_ofMessage hmsg', htyp msg msg' hparse hparse']
  have hasked' : ∃ table, (knowing c password table).asked d b' = some op := by
    by_cases hop : ∃ secs, op = .allocate secs
    · obtain ⟨secs, rfl⟩ := hop
      exact ⟨∅, asked_allocate hsame (hasked ∅) (hmethod ∅)⟩
    · exact asked_subject hsame (fun secs heq => hop ⟨secs, heq⟩) hasked hmethod
  obtain ⟨table, htable⟩ := hasked'
  exact asks_of_asked_knowing htable

end Knowing

/-! ### Datagrams with the same bytes under the digest -/

section Same

variable {d} {off : ℕ} {b b' : Bytes} (h : SameCovered off b b')

include h

theorem asked_of_asks {s : TurnServer} {op : Op} (hasks : ∀ c op, Asks d b c op → Asks d b' c op)
    (hasked : s.asked d b = some op) : s.asked d b' = some op := by
  obtain ⟨hchannel, msg, hparse, hauth, hop⟩ := TurnServer.asked_eq_some.mp hasked
  obtain ⟨c, hc, hrealm, hnonce, password, hpassword, hverify⟩ :=
    TurnServer.authenticate_isSome.mp hauth
  obtain ⟨hchannel', msg', hparse', hc', hop', -⟩ :=
    hasks c op ⟨hchannel, msg, hparse, hc, hop, password, hverify⟩
  rw [h.verifyIntegrity_eq] at hverify
  exact TurnServer.asked_eq_some.mpr ⟨hchannel', msg', hparse',
    TurnServer.authenticate_isSome.mpr ⟨c, hc', hrealm, hnonce, password, hpassword, hverify⟩, hop'⟩

theorem sameAllocations_iff : SameAllocations d b b' ↔ SameAsk d b b' := by
  have htyp : ∀ msg msg', parse b = .ok msg → parse b' = .ok msg' → msg.typ = msg'.typ :=
    fun _ _ hp hp' => h.typ_eq hp hp'
  constructor
  · intro hsame c op
    exact ⟨asks_of_sameAllocations htyp hsame,
      asks_of_sameAllocations (fun _ _ hp hp' => (htyp _ _ hp' hp).symm)
        fun s draw src now => (hsame s draw src now).symm⟩
  · intro hasks s draw src now
    have hasked : (s.expire now).asked d b = (s.expire now).asked d b' := Option.ext fun op =>
      ⟨asked_of_asks h fun c op => (hasks c op).mp, asked_of_asks h.symm fun c op => (hasks c op).mpr⟩
    rw [TurnServer.allocations_handle_granted, TurnServer.allocations_handle_granted, hasked]

end Same

/-- The two do the same to the role, the pairs and the nomination of every agent, and to the
allocations of every server. -/
def SameEffect (b b' : Bytes) : Prop :=
  (∀ (a : Ice.IceAgent) (src : SocketAddr) (now : ℕ),
    (a.handleCheck d b src now).1.view = (a.handleCheck d b' src now).1.view) ∧
  SameAllocations d b b'

/-- Two datagrams with the same bytes under a digest that verifies do the same exactly if they
contest and nominate alike as checks, and ask for the same as requests. -/
theorem sameEffect_iff {key b b' : Bytes} {m m' : Message} (hcovered : covered b = covered b')
    (hverify : verifyIntegrity d b key = .ok ()) (hverify' : verifyIntegrity d b' key = .ok ())
    (hm : parse b = .ok m) (hm' : parse b' = .ok m') :
    SameEffect d b b' ↔ SameCheck d b m m' ∧ SameAsk d b b' := by
  obtain ⟨off, h⟩ := sameCovered_of_eq hcovered hverify hverify'
  exact and_congr (view_handleCheck_iff h hm hm') (sameAllocations_iff h)

/-! ### Nothing is read behind the digest -/

/-- The kinds of the attributes that this effect depends on. -/
def readKinds : List UInt16 :=
  [Attr.username, Attr.realm, Attr.nonce, Attr.requestedTransport, Attr.lifetime,
    Attr.xorPeerAddress, Attr.channelNumber, Attr.iceControlled, Attr.iceControlling,
    Attr.useCandidate]

/-- Every attribute of these kinds is covered by the digest. -/
def ReadsCovered (buf : Bytes) (m : Message) : Prop :=
  ∀ kind ∈ readKinds, (m.get kind).isSome → ∃ a ∈ coveredAttributes m.txid buf, a.kind = kind

instance (buf : Bytes) (m : Message) : Decidable (ReadsCovered buf m) :=
  List.decidableBAll _ readKinds

section ReadsCovered

variable {d} {off : ℕ} {b b' : Bytes} (h : SameCovered off b b') {m m' : Message}
  (hm : parse b = .ok m) (hm' : parse b' = .ok m') (hreads : ReadsCovered b m)
  (hreads' : ReadsCovered b' m')

include h hm hm' hreads hreads'

theorem get_eq_of_readsCovered {kind : UInt16} (hkind : kind ∈ readKinds) :
    m.get kind = m'.get kind := by
  by_cases hcovered : ∃ a ∈ coveredAttributes m.txid b, a.kind = kind
  · exact h.get_eq hm hm' hcovered
  · have hnone : m.get kind = none := by
      by_contra hsome
      exact hcovered (hreads kind hkind (Option.isSome_iff_ne_none.mpr hsome))
    have hnone' : m'.get kind = none := by
      by_contra hsome
      have hfound := hreads' kind hkind (Option.isSome_iff_ne_none.mpr hsome)
      rw [← h.txid_eq hm hm', ← h.coveredAttributes_eq] at hfound
      exact hcovered hfound
    rw [hnone, hnone']

end ReadsCovered

/-- If all that the effect depends on is covered, it is the same, whatever else is behind the
digests. -/
theorem sameEffect_of_readsCovered {key b b' : Bytes} {m m' : Message}
    (hcovered : covered b = covered b') (hverify : verifyIntegrity d b key = .ok ())
    (hverify' : verifyIntegrity d b' key = .ok ()) (hm : parse b = .ok m) (hm' : parse b' = .ok m')
    (hreads : ReadsCovered b m) (hreads' : ReadsCovered b' m') : SameEffect d b b' := by
  obtain ⟨off, h⟩ := sameCovered_of_eq hcovered hverify hverify'
  have hget : ∀ kind ∈ readKinds, m.get kind = m'.get kind := fun _ hkind =>
    get_eq_of_readsCovered h hm hm' hreads hreads' hkind
  have htyp := h.typ_eq hm hm'
  refine ⟨(view_handleCheck_iff h hm hm').mpr fun _ => ?_,
    (sameAllocations_iff h).mpr ?_⟩
  · have hcontrolling := hget Attr.iceControlling (by decide)
    have hcontrolled := hget Attr.iceControlled (by decide)
    have hclaims : ∀ role, claims m role = claims m' role := by
      intro role
      cases role with
      | controlling => simp only [claims, hcontrolling]
      | controlled => simp only [claims, hcontrolled]
    have htie : peerTie m = peerTie m' := by
      simp only [peerTie, hcontrolling, hcontrolled]
    refine ⟨fun role => ?_, ?_⟩
    · rw [contest, contest, hclaims, htie]
    · rw [nominates, nominates, hget _ (by decide)]
  · have hcredentials : Credentials.ofMessage m = Credentials.ofMessage m' := by
      simp only [Credentials.ofMessage, Message.realm, Message.nonce,
        hget Attr.username (by decide), hget Attr.realm (by decide),
        hget Attr.nonce (by decide)]
    have hop : Op.ofMessage m = Op.ofMessage m' := by
      apply Op.ofMessage_congr htyp
      · simp only [Message.requestedTransport, hget Attr.requestedTransport (by decide)]
      · simp only [Message.lifetime, hget Attr.lifetime (by decide)]
      · simp only [Message.xorPeerAddress, hget Attr.xorPeerAddress (by decide)]
      · simp only [Message.channelNumber, hget Attr.channelNumber (by decide)]
    intro c op
    simp only [Asks, parseChannelData_of_parse hm, parseChannelData_of_parse hm', hm, hm', htyp,
      Except.ok.injEq, exists_eq_left', hcredentials, hop, h.verifyIntegrity_eq]

/-! ### A nomination that was not signed -/

def smuggleTxid : TransactionId := Block.zeroPadded 12 [7]

/-- A check of a controlling agent that nominates nothing. -/
def plainCheck : Message :=
  ((bindingRequest smuggleTxid).push (.username (utf8 "abcd:efgh"))).push (.iceControlling 5)

def checkKey : Bytes := utf8 "a-password-of-22-bytes"

/-- A sealed message with more attributes behind its digests, and the length field adjusted. -/
def extended (m : Message) (extra : List Attribute) : Bytes :=
  { m.sealed .front checkKey with
    attributes := (m.sealed .front checkKey).attributes ++ extra }.encode

def signedCheck : Bytes := extended plainCheck []

def smuggledCheck : Bytes := extended plainCheck [.useCandidate]

/-- Whoever appends USE-CANDIDATE to a signed check makes a controlled agent nominate its path. -/
theorem smuggled_nomination :
    covered signedCheck = covered smuggledCheck ∧
      verifyIntegrity .front signedCheck checkKey = .ok () ∧
      verifyIntegrity .front smuggledCheck checkKey = .ok () ∧
      (parse signedCheck).toOption.isSome ∧ (parse smuggledCheck).toOption.isSome ∧
      ¬ SameEffect .front signedCheck smuggledCheck := by
  refine ⟨by decide +kernel, by decide +kernel, by decide +kernel, by decide +kernel,
    by decide +kernel, ?_⟩
  rintro ⟨hview, -⟩
  have hnominated := congrArg View.nominated
    (hview (listening .controlled 0 "a-password-of-22-bytes" clientSide) clientSide 0)
  have hplain : ((listening .controlled 0 "a-password-of-22-bytes" clientSide).handleCheck
      .front signedCheck clientSide 0).1.view.nominated = none := by decide +kernel
  have hsmuggled :
      ((listening .controlled 0 "a-password-of-22-bytes" clientSide).handleCheck .front
        smuggledCheck clientSide 0).1.view.nominated = some 0 := by decide +kernel
  rw [hplain, hsmuggled] at hnominated
  cases hnominated

/-- The same check with a SOFTWARE attribute behind its digests. -/
def softwareCheck : Bytes := extended plainCheck [.software Stun.software]

theorem exists_parse {buf : Bytes} (h : (parse buf).toOption.isSome) : ∃ m, parse buf = .ok m := by
  cases hparse : parse buf with
  | error e =>
      rw [hparse] at h
      cases h
  | ok m => exact ⟨m, rfl⟩

theorem sameEffect_softwareCheck : ∃ m m', parse signedCheck = .ok m ∧ parse softwareCheck = .ok m' ∧
    (SameEffect .front signedCheck softwareCheck ↔
      SameCheck .front signedCheck m m' ∧ SameAsk .front signedCheck softwareCheck) := by
  obtain ⟨m, hm⟩ := @exists_parse signedCheck (by decide +kernel)
  obtain ⟨m', hm'⟩ := @exists_parse softwareCheck (by decide +kernel)
  have hverify : verifyIntegrity .front signedCheck checkKey = .ok () := by decide +kernel
  exact ⟨m, m', hm, hm', sameEffect_iff .front (by decide +kernel) hverify (by decide +kernel) hm hm'⟩

theorem sameEffect_unread : SameEffect .front signedCheck softwareCheck := by
  obtain ⟨m, hm⟩ := @exists_parse signedCheck (by decide +kernel)
  obtain ⟨m', hm'⟩ := @exists_parse softwareCheck (by decide +kernel)
  have hreads : ∀ m ∈ (parse signedCheck).toOption, ReadsCovered signedCheck m := by decide +kernel
  have hreads' : ∀ m ∈ (parse softwareCheck).toOption, ReadsCovered softwareCheck m := by
    decide +kernel
  have hverify : verifyIntegrity .front signedCheck checkKey = .ok () := by decide +kernel
  exact sameEffect_of_readsCovered .front (by decide +kernel) hverify (by decide +kernel) hm hm'
    (hreads m (by rw [hm]; rfl)) (hreads' m' (by rw [hm']; rfl))

end Vantablack.Turn
