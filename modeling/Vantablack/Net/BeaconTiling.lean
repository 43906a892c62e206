import Vantablack.Net.Beacon

/-!
`parse_beacon_sections` of `main.rs` as it reads the receive buffer, index by index. It looks at no
byte after the datagram, reads back what `build_beacon_packet` puts in, and takes exactly what
splits into sections that are well-formed.
-/

namespace Vantablack.Net

open Lib Layers Handshake List

/-! ### Reading the receive buffer

The outer `none` is the panic of an index out of bounds, the inner one the `None` that is returned. -/

def readBeaconSectionAt (buf : Bytes) (start len : ℕ) (magic : Bytes) (acc : BeaconSections) :
    Option (Option BeaconSections) :=
  if magic = beaconSectionZk then
    if len ≠ zkSectionLen then some none
    else do
      let context ← blockAt buf start 32
      let proof ← blockAt buf (start + 32) 64
      some (some { acc with zk := some (context, proof) })
  else if magic = beaconSectionIce then do
    let text ← sliceAt buf start len
    some ((fromUtf8 text).map fun offer => { acc with iceOffer := some offer })
  else if magic = beaconSectionRelay then
    if len ≠ 0 then some none else some (some { acc with relayCapable := true })
  else if magic = beaconSectionPqCommit then
    if len ≠ 32 then some none
    else do
      let commitment ← sliceAt buf start len
      some (some { acc with pqCommitment := Block.ofList? 32 commitment })
  else some none

/-- One turn of the loop, with the position it leaves. -/
def beaconSectionAt (buf : Bytes) (amt pos : ℕ) (acc : BeaconSections) :
    Option (Option (BeaconSections × ℕ)) :=
  if amt < pos + 6 then some none
  else do
    let magic ← sliceAt buf pos 4
    let hi ← buf[pos + 4]?
    let lo ← buf[pos + 5]?
    let len := fromBeBytes [hi, lo]
    let start := pos + 6
    let stop := start + len
    if amt < stop then some none
    else do
      let acc' ← readBeaconSectionAt buf start len magic acc
      some (acc'.map fun acc' => (acc', stop))

/-- The loop. Every turn moves on by at least six bytes, so that `amt` is fuel enough; without fuel
it counts as a panic. -/
def beaconSectionsFrom (buf : Bytes) (amt : ℕ) :
    ℕ → ℕ → BeaconSections → Option (Option BeaconSections)
  | fuel, pos, acc =>
      if amt ≤ pos then some (some acc)
      else
        match fuel with
        | 0 => none
        | fuel + 1 =>
            match beaconSectionAt buf amt pos acc with
            | none => none
            | some none => some none
            | some (some (acc', pos')) => beaconSectionsFrom buf amt fuel pos' acc'

def parseBeaconSectionsIn (buf : Bytes) (amt : ℕ) : Option (Option BeaconSections) :=
  beaconSectionsFrom buf amt amt beaconLegacyLen .empty

/-! ### No read past the datagram -/

theorem sliceAt_take_drop {data : Bytes} {start len i n : ℕ} (hstart : start + len ≤ data.length)
    (hi : i + n ≤ len) : sliceAt ((data.drop start).take len) i n = sliceAt data (start + i) n := by
  have hlen : ((data.drop start).take len).length = len := by
    rw [length_take, length_drop]
    omega
  rw [sliceAt, sliceAt, if_pos (by omega), if_pos (by omega), drop_take, take_take,
    drop_drop, min_eq_left (by omega)]

theorem readBeaconSectionAt_eq {buf : Bytes} {start len : ℕ} (h : start + len ≤ buf.length)
    (magic : Bytes) (acc : BeaconSections) :
    readBeaconSectionAt buf start len magic acc =
      some (acc.read magic ((buf.drop start).take len)) := by
  have hslice : sliceAt buf start len = some ((buf.drop start).take len) := by
    rw [sliceAt, if_pos h]
  have hlen : ((buf.drop start).take len).length = len := by
    rw [length_take, length_drop]
    omega
  have hblock (i n : ℕ) (hi : i + n ≤ len) :
      blockAt ((buf.drop start).take len) i n = blockAt buf (start + i) n := by
    rw [blockAt, blockAt, sliceAt_take_drop h hi]
  unfold readBeaconSectionAt BeaconSections.read
  by_cases hzk : magic = beaconSectionZk
  · rw [if_pos hzk, if_pos hzk, hlen]
    by_cases hsize : len = zkSectionLen
    · have hsize' : len = 96 := hsize
      rw [if_neg (not_not.mpr hsize), if_neg (not_not.mpr hsize), hblock 0 32 (by omega),
        hblock 32 64 (by omega), show start + 0 = start from rfl]
      obtain ⟨context, hcontext⟩ : ∃ v, blockAt buf start 32 = some v := blockAt_of_le (by omega)
      obtain ⟨proof, hproof⟩ : ∃ v, blockAt buf (start + 32) 64 = some v :=
        blockAt_of_le (by omega)
      rw [hcontext, hproof]
      rfl
    · rw [if_pos hsize, if_pos hsize]
      rfl
  rw [if_neg hzk, if_neg hzk]
  by_cases hice : magic = beaconSectionIce
  · rw [if_pos hice, if_pos hice, hslice]
    simp only [Option.bind_eq_bind, Option.bind_some, Option.map_eq_bind]
    rfl
  rw [if_neg hice, if_neg hice]
  by_cases hrelay : magic = beaconSectionRelay
  · rw [if_pos hrelay, if_pos hrelay, hlen]
    by_cases hsize : len = 0
    · rw [if_neg (not_not.mpr hsize), if_neg (not_not.mpr hsize)]
    · rw [if_pos hsize, if_pos hsize]
  rw [if_neg hrelay, if_neg hrelay]
  by_cases hpq : magic = beaconSectionPqCommit
  · rw [if_pos hpq, if_pos hpq, hlen]
    by_cases hsize : len = 32
    · subst hsize
      rw [if_neg (by simp), if_neg (by simp), hblock 0 32 le_rfl, Nat.add_zero, blockAt, hslice]
      rfl
    · rw [if_pos hsize, if_pos hsize]
  · rw [if_neg hpq, if_neg hpq]

variable {buf : Bytes} {amt pos : ℕ}

theorem take_drop_datagram {n : ℕ} (h : pos + n ≤ amt) :
    ((buf.take amt).drop pos).take n = (buf.drop pos).take n := by
  rw [drop_take, take_take, min_eq_left (by omega)]

theorem beaconSectionAt_eq (hbuf : amt ≤ buf.length) (hpos : pos < amt) (acc : BeaconSections) :
    beaconSectionAt buf amt pos acc = some (
      let rest := (buf.take amt).drop pos
      if rest.length < 6 then none
      else
        let len := fromBeBytes ((rest.drop 4).take 2)
        if rest.length < 6 + len then none
        else (acc.read (rest.take 4) ((rest.drop 6).take len)).map fun acc' =>
          (acc', pos + (6 + len))) := by
  have hlen : ((buf.take amt).drop pos).length = amt - pos := by
    rw [length_drop, length_take, min_eq_left hbuf]
  unfold beaconSectionAt
  by_cases hshort : amt < pos + 6
  · rw [if_pos hshort]
    simp only []
    rw [if_pos (by omega)]
  have hmagic : sliceAt buf pos 4 = some (((buf.take amt).drop pos).take 4) := by
    rw [take_drop_datagram (by omega), sliceAt, if_pos (by omega)]
  obtain ⟨hi, hhi⟩ : ∃ b, buf[pos + 4]? = some b := ⟨_, getElem?_eq_getElem (by omega)⟩
  obtain ⟨lo, hlo⟩ : ∃ b, buf[pos + 5]? = some b := ⟨_, getElem?_eq_getElem (by omega)⟩
  have hfield : (((buf.take amt).drop pos).drop 4).take 2 = [hi, lo] := by
    rw [drop_drop, take_drop_datagram (by omega)]
    apply ext_getElem?
    intro i
    rcases i with _ | _ | i
    · simp [hhi]
    · simp [hlo, Nat.add_assoc]
    · rw [getElem?_eq_none (by simp), getElem?_eq_none (by simp)]
  simp only [if_neg hshort, hmagic, hhi, hlo, hfield, Option.bind_eq_bind, Option.bind_some, hlen]
  rw [if_neg (show ¬ amt - pos < 6 by omega)]
  by_cases hstop : amt < pos + 6 + fromBeBytes [hi, lo]
  · rw [if_pos hstop, if_pos (by omega)]
  · have hpayload : ((buf.take amt).drop (pos + 6)).take (fromBeBytes [hi, lo]) =
        (buf.drop (pos + 6)).take (fromBeBytes [hi, lo]) := take_drop_datagram (by omega)
    rw [if_neg hstop, if_neg (by omega), drop_drop, hpayload,
      readBeaconSectionAt_eq (by omega), Nat.add_assoc pos 6]
    rfl

theorem beaconSectionsFrom_eq (hbuf : amt ≤ buf.length) (fuel : ℕ) (hfuel : amt - pos ≤ fuel)
    (acc : BeaconSections) :
    beaconSectionsFrom buf amt fuel pos acc =
      some (parseSections fuel acc ((buf.take amt).drop pos)) := by
  induction fuel generalizing pos acc with
  | zero =>
      have hend : (buf.take amt).drop pos = [] := by
        apply drop_of_length_le
        rw [length_take]
        omega
      rw [beaconSectionsFrom, if_pos (by omega), hend]
      rfl
  | succ fuel ih =>
      rw [beaconSectionsFrom]
      by_cases hpos : amt ≤ pos
      · have hend : (buf.take amt).drop pos = [] := by
          apply drop_of_length_le
          rw [length_take]
          omega
        rw [if_pos hpos, hend]
        rfl
      · rw [if_neg hpos, beaconSectionAt_eq hbuf (not_le.mp hpos)]
        have hlen : ((buf.take amt).drop pos).length = amt - pos := by
          rw [length_drop, length_take, min_eq_left hbuf]
        have hnext (n : ℕ) : ((buf.take amt).drop pos).drop n = (buf.take amt).drop (pos + n) :=
          drop_drop
        obtain ⟨b, bs, hrest⟩ : ∃ b bs, (buf.take amt).drop pos = b :: bs := by
          apply exists_cons_of_length_pos
          omega
        simp only [hrest, parseSections]
        rw [← hrest]
        by_cases hshort : ((buf.take amt).drop pos).length < 6
        · rw [if_pos hshort, if_pos hshort]
        rw [if_neg hshort, if_neg hshort]
        set len := fromBeBytes ((((buf.take amt).drop pos).drop 4).take 2)
        by_cases hstop : ((buf.take amt).drop pos).length < 6 + len
        · rw [if_pos hstop, if_pos hstop]
        · rw [if_neg hstop, if_neg hstop]
          cases hread : acc.read (((buf.take amt).drop pos).take 4)
              ((((buf.take amt).drop pos).drop 6).take len) with
          | none => rfl
          | some acc' =>
              simp only [Option.map_some, Option.bind_eq_bind, Option.bind_some, hnext]
              exact ih (by omega) acc'

theorem parseBeaconSectionsIn_eq (hbuf : amt ≤ buf.length) :
    parseBeaconSectionsIn buf amt = some (parseBeaconSections (buf.take amt)) := by
  rw [parseBeaconSectionsIn, beaconSectionsFrom_eq hbuf amt (Nat.sub_le _ _), parseBeaconSections,
    length_take, min_eq_left hbuf]

/-! ### What is accepted -/

/-- The sections that are read. -/
inductive WellFormedSection : Bytes → Bytes → Prop
  | zk {payload : Bytes} (h : payload.length = zkSectionLen) :
      WellFormedSection beaconSectionZk payload
  | ice (offer : String) : WellFormedSection beaconSectionIce (utf8 offer)
  | relay : WellFormedSection beaconSectionRelay []
  | pqCommit {payload : Bytes} (h : payload.length = 32) :
      WellFormedSection beaconSectionPqCommit payload

theorem wellFormedSection_of_read {acc acc' : BeaconSections} {magic payload : Bytes}
    (h : acc.read magic payload = some acc') : WellFormedSection magic payload := by
  obtain ⟨context, proof, rfl, rfl, rfl⟩ | ⟨offer, rfl, rfl, rfl⟩ | ⟨rfl, rfl, rfl⟩ |
    ⟨c, rfl, rfl, rfl⟩ := read_cases h
  · apply WellFormedSection.zk
    rw [length_append, List.Vector.toList_length, List.Vector.toList_length]
    rfl
  · exact .ice offer
  · exact .relay
  · exact .pqCommit c.toList_length

variable (acc : BeaconSections)

@[simp] theorem read_zk (context : Octets 32) (proof : Octets 64) :
    acc.read beaconSectionZk (context.toList ++ proof.toList) =
      some { acc with zk := some (context, proof) } := by
  have hlen : (context.toList ++ proof.toList).length = zkSectionLen := by
    rw [length_append, List.Vector.toList_length, List.Vector.toList_length]
    rfl
  have hstart := RestAt.start (context.toList ++ proof.toList)
  have hproof : RestAt (context.toList ++ proof.toList) 32 (proof.toList ++ []) := by
    rw [append_nil]
    simpa using hstart.block
  rw [BeaconSections.read, if_pos rfl, if_neg (not_not.mpr hlen), hstart.blockAt, hproof.blockAt]
  rfl

@[simp] theorem read_ice (offer : String) :
    acc.read beaconSectionIce (utf8 offer) = some { acc with iceOffer := some offer } := by
  rw [BeaconSections.read, if_neg (by decide), if_pos rfl, fromUtf8_utf8]
  rfl

@[simp] theorem read_relay :
    acc.read beaconSectionRelay [] = some { acc with relayCapable := true } := by
  rw [BeaconSections.read, if_neg (by decide), if_neg (by decide), if_pos rfl, if_neg (by simp)]

@[simp] theorem read_pqCommit (c : Octets 32) :
    acc.read beaconSectionPqCommit c.toList = some { acc with pqCommitment := some c } := by
  have hc : blockAt c.toList 0 32 = some c := by
    have hstart := RestAt.start (c.toList ++ [])
    have := hstart.blockAt
    rwa [append_nil] at this
  rw [BeaconSections.read, if_neg (by decide), if_neg (by decide), if_neg (by decide), if_pos rfl,
    if_neg (not_not.mpr c.toList_length), hc]

theorem exists_read_of_wellFormedSection {magic payload : Bytes}
    (h : WellFormedSection magic payload) (acc : BeaconSections) :
    ∃ acc', acc.read magic payload = some acc' := by
  cases h with
  | zk hlen =>
      have hlen' : payload.length = 96 := hlen
      obtain ⟨context, hcontext⟩ : ∃ v, blockAt payload 0 32 = some v := blockAt_of_le (by omega)
      obtain ⟨proof, hproof⟩ : ∃ v, blockAt payload 32 64 = some v := blockAt_of_le (by omega)
      rw [BeaconSections.read, if_pos rfl, if_neg (not_not.mpr hlen), hcontext, hproof]
      exact ⟨_, rfl⟩
  | ice offer => exact ⟨_, read_ice acc offer⟩
  | relay => exact ⟨_, read_relay acc⟩
  | pqCommit hlen =>
      rw [BeaconSections.read, if_neg (by decide), if_neg (by decide), if_neg (by decide),
        if_pos rfl, if_neg (not_not.mpr hlen)]
      exact ⟨_, rfl⟩

theorem readAll_isSome_iff (sections : List (Bytes × Bytes)) :
    (acc.readAll sections).isSome ↔ ∀ x ∈ sections, WellFormedSection x.1 x.2 := by
  induction sections generalizing acc with
  | nil => simp [BeaconSections.readAll]
  | cons x sections ih =>
      rw [BeaconSections.readAll_cons, forall_mem_cons]
      constructor
      · intro h
        cases hread : acc.read x.1 x.2 with
        | none =>
            rw [hread] at h
            cases h
        | some acc' =>
            rw [hread, Option.bind_some] at h
            exact ⟨wellFormedSection_of_read hread, (ih acc').mp h⟩
      · rintro ⟨hx, hrest⟩
        obtain ⟨acc', hread⟩ := exists_read_of_wellFormedSection hx acc
        rw [hread, Option.bind_some]
        exact (ih acc').mpr hrest

theorem parseSections_of_tiles {rest : Bytes} {sections : List (Bytes × Bytes)}
    (h : Tiles rest sections) {fuel : ℕ} (hfuel : rest.length ≤ fuel) (acc : BeaconSections) :
    parseSections fuel acc rest = acc.readAll sections := by
  induction h generalizing fuel acc with
  | nil => cases fuel <;> rfl
  | @cons magic payload rest sections hmagic hpayload _ ih =>
      have hbytes : sectionBytes magic payload ++ rest =
          magic ++ (toBeBytes 2 payload.length ++ (payload ++ rest)) := by
        rw [sectionBytes, append_assoc, append_assoc]
      have hlen : (sectionBytes magic payload ++ rest).length =
          6 + payload.length + rest.length := by
        rw [hbytes]
        simp only [length_append, length_toBeBytes]
        omega
      obtain ⟨fuel, rfl⟩ : ∃ n, fuel = n + 1 := ⟨fuel - 1, by omega⟩
      obtain ⟨b, bs, hcons⟩ : ∃ b bs, sectionBytes magic payload ++ rest = b :: bs := by
        apply exists_cons_of_length_pos
        omega
      have hfront : (sectionBytes magic payload ++ rest).take 4 = magic := by
        rw [hbytes, take_left' hmagic]
      have hdrop4 : (sectionBytes magic payload ++ rest).drop 4 =
          toBeBytes 2 payload.length ++ (payload ++ rest) := by
        rw [hbytes, drop_left' hmagic]
      have hfield : fromBeBytes (((sectionBytes magic payload ++ rest).drop 4).take 2) =
          payload.length := by
        rw [hdrop4, take_left' (length_toBeBytes 2 _), fromBeBytes_toBeBytes hpayload]
      have hdrop6 : (sectionBytes magic payload ++ rest).drop 6 = payload ++ rest := by
        rw [show 6 = 4 + 2 from rfl, ← drop_drop, hdrop4,
          drop_left' (length_toBeBytes 2 _)]
      have hafter : (sectionBytes magic payload ++ rest).drop (6 + payload.length) = rest := by
        rw [← drop_drop, hdrop6, drop_left]
      rw [hcons, parseSections, ← hcons]
      simp only [hfront, hfield, hdrop6, hafter, take_left]
      rw [if_neg (by omega), if_neg (by omega), BeaconSections.readAll_cons]
      cases acc.read magic payload with
      | none => rfl
      | some acc' =>
          show parseSections fuel acc' rest = _
          exact ih (by omega) acc'

theorem parseBeaconSections_isSome_iff (data : Bytes) :
    (parseBeaconSections data).isSome ↔
      ∃ sections, Tiles (data.drop beaconLegacyLen) sections ∧
        ∀ x ∈ sections, WellFormedSection x.1 x.2 := by
  constructor
  · intro h
    obtain ⟨s, hs⟩ := Option.isSome_iff_exists.mp h
    obtain ⟨sections, htiles, hall⟩ := tiles_of_parseSections hs
    have hsome : (BeaconSections.empty.readAll sections).isSome := by rw [hall]; rfl
    exact ⟨sections, htiles, (readAll_isSome_iff _ _).mp hsome⟩
  · rintro ⟨sections, htiles, hall⟩
    have hfuel : (data.drop beaconLegacyLen).length ≤ data.length := by
      rw [length_drop]
      omega
    rw [parseBeaconSections, parseSections_of_tiles htiles hfuel]
    exact (readAll_isSome_iff _ _).mpr hall

/-! ### What is built is read back -/

theorem readAll_toList (s : BeaconSections) : BeaconSections.empty.readAll s.toList = some s := by
  obtain ⟨zk, iceOffer, relayCapable, pqCommitment⟩ := s
  simp only [BeaconSections.toList]
  rcases zk with _ | ⟨context, proof⟩ <;> rcases iceOffer with _ | offer <;>
    cases relayCapable <;> rcases pqCommitment with _ | c <;>
      simp [BeaconSections.empty, BeaconSections.readAll]

theorem parseBeaconSections_buildBeaconPacket (pk : Octets 32) (signer : Bytes → Octets 64)
    {s : BeaconSections} (hs : s.Fits) :
    parseBeaconSections (buildBeaconPacket pk signer s) = some s := by
  have hfuel : ((buildBeaconPacket pk signer s).drop beaconLegacyLen).length ≤
      (buildBeaconPacket pk signer s).length := by
    rw [length_drop]
    omega
  rw [parseBeaconSections, parseSections_of_tiles (tiles_buildBeaconPacket pk signer hs) hfuel,
    readAll_toList]

/-- A built beacon is read back as its sections. Any datagram, whatever follows it in the buffer, is
read without an index past its end, and is parsed exactly if what follows the prefix splits into
well-formed sections. -/
theorem beacon_sections_tile (pk : Octets 32) (signer : Bytes → Octets 64) (s : BeaconSections)
    (hs : s.Fits) (data tail : Bytes) :
    parseBeaconSectionsIn (buildBeaconPacket pk signer s) (buildBeaconPacket pk signer s).length =
        some (some s) ∧
      ∃ result, parseBeaconSectionsIn (data ++ tail) data.length = some result ∧
        parseBeaconSectionsIn data data.length = some result ∧
        (result.isSome ↔
          ∃ sections, Tiles (data.drop beaconLegacyLen) sections ∧
            ∀ x ∈ sections, WellFormedSection x.1 x.2) := by
  refine ⟨?_, parseBeaconSections data, ?_, ?_, parseBeaconSections_isSome_iff data⟩
  · rw [parseBeaconSectionsIn_eq le_rfl, take_length,
      parseBeaconSections_buildBeaconPacket _ _ hs]
  · have hbuf : data.length ≤ (data ++ tail).length := by
      rw [length_append]
      omega
    rw [parseBeaconSectionsIn_eq hbuf, take_left]
  · rw [parseBeaconSectionsIn_eq le_rfl, take_length]

def fullSections : BeaconSections where
  zk := some (List.Vector.replicate 32 1, List.Vector.replicate 64 2)
  iceOffer := some "a=ice-ufrag:abcd"
  relayCapable := true
  pqCommitment := some (List.Vector.replicate 32 3)

theorem full_beacon_sections_tile :
    parseBeaconSectionsIn
        (buildBeaconPacket (List.Vector.replicate 32 0) (fun _ => List.Vector.replicate 64 0)
          fullSections)
        (buildBeaconPacket (List.Vector.replicate 32 0) (fun _ => List.Vector.replicate 64 0)
          fullSections).length =
      some (some fullSections) := by
  have hs : fullSections.Fits := by
    intro offer hoffer
    cases hoffer
    decide
  exact (beacon_sections_tile _ _ fullSections hs [] []).1

end Vantablack.Net
