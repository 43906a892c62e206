import Vantablack.Handshake.Dispatch
import Vantablack.Net.Utf8

/-!
The discovery beacons of `main.rs`: a signed prefix of fixed length, followed by optional sections.
The signature is over the public key in the prefix alone.
-/

namespace Vantablack.Net

open Lib Layers Handshake List

/-- The length of the signed prefix: magic, public key and signature. -/
def beaconLegacyLen : ℕ := 112

def beaconSectionZk : Bytes := utf8 "ZKPR"
def beaconSectionIce : Bytes := utf8 "ICEO"
def beaconSectionRelay : Bytes := utf8 "RLYC"
def beaconSectionPqCommit : Bytes := utf8 "PQK!"

/-- `ZK_CONTEXT_LEN + ZK_PROOF_LEN`. -/
def zkSectionLen : ℕ := 32 + 64

/-- What the sections of a beacon say, both as its sender puts it in and as it is parsed. -/
structure BeaconSections where
  zk : Option (Octets 32 × Octets 64)
  iceOffer : Option String
  relayCapable : Bool
  pqCommitment : Option (Octets 32)
  deriving DecidableEq

def BeaconSections.empty : BeaconSections where
  zk := none
  iceOffer := none
  relayCapable := false
  pqCommitment := none

/-- A section on the wire. The length is cast to sixteen bits. -/
def sectionBytes (magic payload : Bytes) : Bytes :=
  magic ++ toBeBytes 2 payload.length ++ payload

def pushBeaconSection (buf magic payload : Bytes) : Bytes :=
  buf ++ sectionBytes magic payload

def buildBeaconPacket (pk : Octets 32) (signer : Bytes → Octets 64) (s : BeaconSections) : Bytes :=
  let buf := beaconPrefix ++ pk.toList ++ (signer pk.toList).toList
  let buf := match s.zk with
    | some (context, proof) =>
        pushBeaconSection buf beaconSectionZk (context.toList ++ proof.toList)
    | none => buf
  let buf := match s.iceOffer with
    | some offer => pushBeaconSection buf beaconSectionIce (utf8 offer)
    | none => buf
  let buf := if s.relayCapable then pushBeaconSection buf beaconSectionRelay [] else buf
  match s.pqCommitment with
  | some commitment => pushBeaconSection buf beaconSectionPqCommit commitment.toList
  | none => buf

/-- One section is read into what the earlier ones said. -/
def BeaconSections.read (acc : BeaconSections) (magic payload : Bytes) : Option BeaconSections :=
  if magic = beaconSectionZk then do
    if payload.length ≠ zkSectionLen then none
    let context ← blockAt payload 0 32
    let proof ← blockAt payload 32 64
    some { acc with zk := some (context, proof) }
  else if magic = beaconSectionIce then do
    let offer ← fromUtf8 payload
    some { acc with iceOffer := some offer }
  else if magic = beaconSectionRelay then
    if payload.length ≠ 0 then none else some { acc with relayCapable := true }
  else if magic = beaconSectionPqCommit then
    if payload.length ≠ 32 then none else some { acc with pqCommitment := blockAt payload 0 32 }
  else none

/-- The loop of `parse_beacon_sections` over the bytes that are left. Every round takes at least six
of them, so that their number is fuel enough. -/
def parseSections : ℕ → BeaconSections → Bytes → Option BeaconSections
  | _, acc, [] => some acc
  | 0, _, _ :: _ => none
  | fuel + 1, acc, b :: bs =>
      let rest := b :: bs
      if rest.length < 6 then none
      else
        let len := fromBeBytes ((rest.drop 4).take 2)
        if rest.length < 6 + len then none
        else do
          let acc' ← acc.read (rest.take 4) ((rest.drop 6).take len)
          parseSections fuel acc' (rest.drop (6 + len))

def parseBeaconSections (data : Bytes) : Option BeaconSections :=
  parseSections data.length .empty (data.drop beaconLegacyLen)

/-! ### Sections as such -/

/-- The sections of a beacon in the order they are built. -/
def BeaconSections.toList (s : BeaconSections) : List (Bytes × Bytes) :=
  (s.zk.toList.map fun zk => (beaconSectionZk, zk.1.toList ++ zk.2.toList)) ++
    (s.iceOffer.toList.map fun offer => (beaconSectionIce, utf8 offer)) ++
    (if s.relayCapable then [(beaconSectionRelay, [])] else []) ++
    (s.pqCommitment.toList.map fun commitment => (beaconSectionPqCommit, commitment.toList))

/-- The bytes are the sections, one after the other. -/
inductive Tiles : Bytes → List (Bytes × Bytes) → Prop
  | nil : Tiles [] []
  | cons {magic payload rest : Bytes} {sections : List (Bytes × Bytes)} (hmagic : magic.length = 4)
      (hpayload : payload.length < 2 ^ 16) (h : Tiles rest sections) :
      Tiles (sectionBytes magic payload ++ rest) ((magic, payload) :: sections)

def BeaconSections.readAll (acc : BeaconSections) (sections : List (Bytes × Bytes)) :
    Option BeaconSections :=
  sections.foldlM (fun acc s => acc.read s.1 s.2) acc

@[simp] theorem BeaconSections.readAll_cons (acc : BeaconSections) (s : Bytes × Bytes)
    (sections : List (Bytes × Bytes)) :
    acc.readAll (s :: sections) = (acc.read s.1 s.2).bind fun acc' => acc'.readAll sections := rfl

theorem sectionBytes_front {rest : Bytes} {len : ℕ}
    (hlen : len = fromBeBytes ((rest.drop 4).take 2)) (hrest : ¬ rest.length < 6 + len) :
    sectionBytes (rest.take 4) ((rest.drop 6).take len) ++ rest.drop (6 + len) = rest ∧
      ((rest.drop 6).take len).length < 2 ^ 16 := by
  have hfield : ((rest.drop 4).take 2).length = 2 := by
    rw [length_take, length_drop]
    omega
  have hpayload : ((rest.drop 6).take len).length = len := by
    rw [length_take, length_drop]
    omega
  have hbound := fromBeBytes_lt ((rest.drop 4).take 2)
  rw [hfield, ← hlen] at hbound
  have hbytes : toBeBytes 2 len = (rest.drop 4).take 2 := by
    have := toBeBytes_fromBeBytes ((rest.drop 4).take 2)
    rwa [hfield, ← hlen] at this
  refine ⟨?_, by omega⟩
  have hdrop6 : rest.drop 6 = (rest.drop 4).drop 2 := by rw [drop_drop]
  have hdrop : rest.drop (6 + len) = (rest.drop 6).drop len := by rw [drop_drop]
  rw [sectionBytes, hpayload, hbytes, hdrop, append_assoc, append_assoc,
    take_append_drop, hdrop6, take_append_drop, take_append_drop]

variable {acc s : BeaconSections}

theorem tiles_of_parseSections {fuel : ℕ} {rest : Bytes}
    (h : parseSections fuel acc rest = some s) :
    ∃ sections, Tiles rest sections ∧ acc.readAll sections = some s := by
  induction fuel generalizing acc rest with
  | zero =>
      match rest with
      | [] => exact ⟨[], .nil, h⟩
      | b :: bs => cases h
  | succ fuel ih =>
      match rest with
      | [] => exact ⟨[], .nil, h⟩
      | b :: bs =>
          rw [parseSections] at h
          set rest := b :: bs
          split at h
          · cases h
          simp only [] at h
          split at h
          · cases h
          rename_i hshort hrest
          obtain ⟨acc', hread, hloop⟩ := Option.bind_eq_some_iff.mp h
          obtain ⟨sections, htiles, hall⟩ := ih hloop
          obtain ⟨hfront, hbound⟩ := sectionBytes_front rfl hrest
          have hmagic : (rest.take 4).length = 4 := by
            rw [length_take]
            omega
          have hcons := htiles.cons hmagic hbound
          rw [hfront] at hcons
          refine ⟨_, hcons, ?_⟩
          rw [BeaconSections.readAll_cons, hread]
          exact hall

variable {x : Bytes × Bytes}

theorem mem_toList :
    x ∈ s.toList ↔
      (∃ zk, s.zk = some zk ∧ x = (beaconSectionZk, zk.1.toList ++ zk.2.toList)) ∨
      (∃ offer, s.iceOffer = some offer ∧ x = (beaconSectionIce, utf8 offer)) ∨
      (s.relayCapable = true ∧ x = (beaconSectionRelay, [])) ∨
      (∃ c, s.pqCommitment = some c ∧ x = (beaconSectionPqCommit, c.toList)) := by
  simp only [BeaconSections.toList, mem_append, mem_map, Option.mem_toList, or_assoc,
    eq_comm (a := x)]
  cases s.relayCapable <;> simp [eq_comm]

theorem read_cases {acc' : BeaconSections} {magic payload : Bytes}
    (h : acc.read magic payload = some acc') :
    (∃ context proof, magic = beaconSectionZk ∧ payload = context.toList ++ proof.toList ∧
      acc' = { acc with zk := some (context, proof) }) ∨
    (∃ offer, magic = beaconSectionIce ∧ payload = utf8 offer ∧
      acc' = { acc with iceOffer := some offer }) ∨
    (magic = beaconSectionRelay ∧ payload = [] ∧ acc' = { acc with relayCapable := true }) ∨
    (∃ c, magic = beaconSectionPqCommit ∧ payload = c.toList ∧
      acc' = { acc with pqCommitment := some c }) := by
  unfold BeaconSections.read at h
  split at h
  · rename_i hmagic
    simp only [ne_eq, ite_not] at h
    split at h
    · rename_i hlen
      obtain ⟨context, hcontext, h⟩ := Option.bind_eq_some_iff.mp h
      obtain ⟨proof, hproof, h⟩ := Option.bind_eq_some_iff.mp h
      refine .inl ⟨context, proof, hmagic, ?_, (Option.some.inj h).symm⟩
      rw [toList_of_blockAt hcontext, toList_of_blockAt hproof, drop_zero]
      have hall : (payload.drop 32).take 64 = payload.drop 32 := by
        apply take_of_length_le
        rw [length_drop, hlen, zkSectionLen]
      rw [hall, take_append_drop]
    · cases h
  split at h
  · rename_i hmagic
    obtain ⟨offer, hoffer, h⟩ := Option.bind_eq_some_iff.mp h
    exact .inr (.inl ⟨offer, hmagic, (utf8_of_fromUtf8 hoffer).symm, (Option.some.inj h).symm⟩)
  split at h
  · rename_i hmagic
    split at h
    · cases h
    · rename_i hlen
      have hempty : payload = [] := eq_nil_of_length_eq_zero (not_not.mp hlen)
      exact .inr (.inr (.inl ⟨hmagic, hempty, (Option.some.inj h).symm⟩))
  split at h
  · rename_i hmagic
    split at h
    · cases h
    · rename_i hlen
      have hlen : payload.length = 32 := not_not.mp hlen
      have hblock : ∃ c, blockAt payload 0 32 = some c := blockAt_of_le (by omega)
      obtain ⟨c, hc⟩ := hblock
      have hpayload : payload = c.toList := by
        rw [toList_of_blockAt hc, drop_zero, take_of_length_le hlen.le]
      rw [hc] at h
      exact .inr (.inr (.inr ⟨c, hmagic, hpayload, (Option.some.inj h).symm⟩))
  · cases h

theorem mem_toList_of_read {acc' : BeaconSections} {magic payload : Bytes}
    (h : acc.read magic payload = some acc') (hx : x ∈ acc'.toList) :
    x ∈ acc.toList ∨ x = (magic, payload) := by
  rw [mem_toList] at hx ⊢
  obtain ⟨context, proof, rfl, rfl, rfl⟩ | ⟨offer, rfl, rfl, rfl⟩ | ⟨rfl, rfl, rfl⟩ |
    ⟨c, rfl, rfl, rfl⟩ := read_cases h
  · rcases hx with ⟨zk, hzk, rfl⟩ | hx
    · cases hzk
      exact .inr rfl
    · exact .inl (.inr hx)
  · rcases hx with hx | ⟨text, htext, rfl⟩ | hx
    · exact .inl (.inl hx)
    · cases htext
      exact .inr rfl
    · exact .inl (.inr (.inr hx))
  · rcases hx with hx | hx | ⟨-, rfl⟩ | hx
    · exact .inl (.inl hx)
    · exact .inl (.inr (.inl hx))
    · exact .inr rfl
    · exact .inl (.inr (.inr (.inr hx)))
  · rcases hx with hx | hx | hx | ⟨c', hc', rfl⟩
    · exact .inl (.inl hx)
    · exact .inl (.inr (.inl hx))
    · exact .inl (.inr (.inr (.inl hx)))
    · cases hc'
      exact .inr rfl

variable {sections : List (Bytes × Bytes)}

theorem mem_toList_of_readAll (h : acc.readAll sections = some s) (hx : x ∈ s.toList) :
    x ∈ acc.toList ∨ x ∈ sections := by
  induction sections generalizing acc with
  | nil =>
      cases h
      exact .inl hx
  | cons y sections ih =>
      rw [BeaconSections.readAll_cons] at h
      obtain ⟨acc', hread, hrest⟩ := Option.bind_eq_some_iff.mp h
      rcases ih hrest with hacc | hmem
      · rcases mem_toList_of_read hread hacc with hold | rfl
        · exact .inl hold
        · exact .inr mem_cons_self
      · exact .inr (mem_cons_of_mem _ hmem)

theorem tiles_of_parseBeaconSections {data : Bytes} (h : parseBeaconSections data = some s) :
    ∃ sections, Tiles (data.drop beaconLegacyLen) sections ∧ ∀ x ∈ s.toList, x ∈ sections := by
  obtain ⟨sections, htiles, hall⟩ := tiles_of_parseSections h
  refine ⟨sections, htiles, fun x hx => ?_⟩
  rcases mem_toList_of_readAll hall hx with hempty | hmem
  · simp [BeaconSections.toList, BeaconSections.empty] at hempty
  · exact hmem

/-! ### What a built beacon is made of -/

theorem buildBeaconPacket_eq (pk : Octets 32) (signer : Bytes → Octets 64) (s : BeaconSections) :
    buildBeaconPacket pk signer s =
      beaconPrefix ++ pk.toList ++ (signer pk.toList).toList ++
        s.toList.flatMap fun x => sectionBytes x.1 x.2 := by
  obtain ⟨zk, iceOffer, relayCapable, pqCommitment⟩ := s
  unfold buildBeaconPacket BeaconSections.toList pushBeaconSection
  rcases zk with _ | zk <;> rcases iceOffer with _ | offer <;>
    rcases pqCommitment with _ | c <;> cases relayCapable <;>
      simp only [Option.toList_none, Option.toList_some, map_nil, map_cons,
        flatMap_nil, flatMap_cons, nil_append, append_nil, cons_append,
        append_assoc, if_true, if_false, Bool.false_eq_true]

theorem sectionBytes_append_inj {magic magic' payload payload' rest rest' : Bytes}
    (hmagic : magic.length = 4) (hmagic' : magic'.length = 4) (hpayload : payload.length < 2 ^ 16)
    (hpayload' : payload'.length < 2 ^ 16)
    (h : sectionBytes magic payload ++ rest = sectionBytes magic' payload' ++ rest') :
    magic = magic' ∧ payload = payload' ∧ rest = rest' := by
  simp only [sectionBytes, append_assoc] at h
  obtain ⟨rfl, hafter⟩ := append_inj h (hmagic.trans hmagic'.symm)
  have hwidth : (toBeBytes 2 payload.length).length = (toBeBytes 2 payload'.length).length := by
    rw [length_toBeBytes, length_toBeBytes]
  obtain ⟨hfield, hbody⟩ := append_inj hafter hwidth
  have hlen : payload.length = payload'.length := toBeBytes_inj (w := 2) hpayload hpayload' hfield
  obtain ⟨rfl, rfl⟩ := append_inj hbody hlen
  exact ⟨rfl, rfl, rfl⟩

theorem Tiles.unique {bytes : Bytes} {sections' : List (Bytes × Bytes)} (h : Tiles bytes sections)
    (h' : Tiles bytes sections') : sections = sections' := by
  induction h generalizing sections' with
  | nil =>
      generalize hb : ([] : Bytes) = bytes at h'
      cases h' with
      | nil => rfl
      | cons hmagic _ _ =>
          have := congrArg length hb
          simp [sectionBytes, hmagic] at this
          omega
  | cons hmagic hpayload _ ih =>
      rename_i magic payload rest sections _
      generalize hb : sectionBytes magic payload ++ rest = bytes at h'
      cases h' with
      | nil =>
          have := congrArg length hb
          simp [sectionBytes, hmagic] at this
      | cons hmagic' hpayload' hrest =>
          obtain ⟨rfl, rfl, rfl⟩ := sectionBytes_append_inj hmagic hmagic' hpayload hpayload' hb
          rw [ih hrest]

theorem length_beaconSectionZk : beaconSectionZk.length = 4 := by decide
theorem length_beaconSectionIce : beaconSectionIce.length = 4 := by decide
theorem length_beaconSectionRelay : beaconSectionRelay.length = 4 := by decide
theorem length_beaconSectionPqCommit : beaconSectionPqCommit.length = 4 := by decide

/-- A beacon whose offer fits the length field of its section. -/
def BeaconSections.Fits (s : BeaconSections) : Prop :=
  ∀ offer, s.iceOffer = some offer → (utf8 offer).length < 2 ^ 16

theorem length_of_mem_toList (hs : s.Fits) (hx : x ∈ s.toList) :
    x.1.length = 4 ∧ x.2.length < 2 ^ 16 := by
  rcases mem_toList.mp hx with ⟨zk, -, rfl⟩ | ⟨offer, hoffer, rfl⟩ | ⟨-, rfl⟩ | ⟨c, -, rfl⟩
  · exact ⟨length_beaconSectionZk, by simp⟩
  · exact ⟨length_beaconSectionIce, hs offer hoffer⟩
  · exact ⟨length_beaconSectionRelay, by simp⟩
  · exact ⟨length_beaconSectionPqCommit, by simp⟩

theorem tiles_flatMap (h : ∀ x ∈ sections, x.1.length = 4 ∧ x.2.length < 2 ^ 16) :
    Tiles (sections.flatMap fun x => sectionBytes x.1 x.2) sections := by
  induction sections with
  | nil => exact .nil
  | cons x sections ih =>
      obtain ⟨hmagic, hpayload⟩ := h x mem_cons_self
      rw [flatMap_cons]
      exact .cons hmagic hpayload (ih fun y hy => h y (mem_cons_of_mem _ hy))

theorem tiles_buildBeaconPacket (pk : Octets 32) (signer : Bytes → Octets 64) (hs : s.Fits) :
    Tiles ((buildBeaconPacket pk signer s).drop beaconLegacyLen) s.toList := by
  have hlen : (beaconPrefix ++ pk.toList ++ (signer pk.toList).toList).length = beaconLegacyLen := by
    simp only [length_append, List.Vector.toList_length]
    decide
  rw [buildBeaconPacket_eq, drop_left' hlen]
  exact tiles_flatMap fun x hx => length_of_mem_toList hs hx

end Vantablack.Net
