import Vantablack.Net.StunIntegrity

/-!
The part of a datagram that its digest covers: the bytes up to and including the first
MESSAGE-INTEGRITY, without the length field. What is read behind it is not covered.
-/

namespace Vantablack.Net.Stun

open Lib Layers Receive

/-- The bytes that the digest covers, and the digest. -/
def covered (buf : Bytes) : Option Bytes :=
  (findRawAttribute buf Attr.messageIntegrity).map fun (off, _) =>
    buf.take 2 ++ (buf.drop 4).take (off + integritySize - 4)

/-- Two datagrams whose digest is at the same place, with the same bytes up to its end. -/
structure SameCovered (off : ℕ) (b b' : Bytes) : Prop where
  found : ∃ len, findRawAttribute b Attr.messageIntegrity = some (off, len)
  found' : ∃ len, findRawAttribute b' Attr.messageIntegrity = some (off, len)
  header : headerLen ≤ off
  fits : off + integritySize ≤ b.length
  fits' : off + integritySize ≤ b'.length
  start : b.take 2 = b'.take 2
  rest : (b.drop 4).take (off + integritySize - 4) = (b'.drop 4).take (off + integritySize - 4)

theorem SameCovered.symm {off : ℕ} {b b' : Bytes} (h : SameCovered off b b') :
    SameCovered off b' b :=
  ⟨h.found', h.found, h.header, h.fits', h.fits, h.start.symm, h.rest.symm⟩

theorem found_of_verify {d : Digests} {buf key : Bytes} (h : verifyIntegrity d buf key = .ok ()) :
    ∃ off len, findRawAttribute buf Attr.messageIntegrity = some (off, len) ∧
      headerLen ≤ off ∧ off + integritySize ≤ buf.length := by
  unfold verifyIntegrity at h
  split at h
  · cases h
  · rename_i off len hfound
    split at h
    · cases h
    · exact ⟨off, len, hfound, by omega, by omega⟩

theorem sameCovered_of_eq {d : Digests} {b b' key : Bytes} (h : covered b = covered b')
    (hv : verifyIntegrity d b key = .ok ()) (hv' : verifyIntegrity d b' key = .ok ()) :
    ∃ off, SameCovered off b b' := by
  obtain ⟨off, len, hfound, hheader, hfits⟩ := found_of_verify hv
  obtain ⟨off', len', hfound', hheader', hfits'⟩ := found_of_verify hv'
  rw [covered, covered, hfound, hfound', Option.map_some, Option.map_some] at h
  have happend := Option.some.inj h
  have hlength := congrArg List.length happend
  simp only [headerLen, integritySize] at hheader hfits hheader' hfits'
  simp only [List.length_append, List.length_take, List.length_drop, integritySize] at hlength
  have heq : off = off' := by omega
  subst heq
  have hstart : (b.take 2).length = (b'.take 2).length := by
    simp only [List.length_take]
    omega
  obtain ⟨htype, hrest⟩ := List.append_inj happend hstart
  exact ⟨off, ⟨len, hfound⟩, ⟨len', hfound'⟩, hheader, hfits, hfits', htype, hrest⟩

namespace SameCovered

variable {off : ℕ} {b b' : Bytes} (h : SameCovered off b b')

include h

theorem slice {i n : ℕ} (hi : 4 ≤ i) (hn : i + n ≤ off + integritySize) :
    (b.drop i).take n = (b'.drop i).take n := by
  have hcut : ∀ l : Bytes,
      (l.drop i).take n = (((l.drop 4).take (off + integritySize - 4)).drop (i - 4)).take n := by
    intro l
    rw [List.drop_take, List.drop_drop, List.take_take, show 4 + (i - 4) = i by omega,
      min_eq_left (by omega)]
  rw [hcut b, hcut b', h.rest]

theorem verifyIntegrity_eq (d : Digests) (key : Bytes) :
    verifyIntegrity d b key = verifyIntegrity d b' key := by
  have hheaderLen : headerLen = 20 := rfl
  have hsize : integritySize = 24 := rfl
  obtain ⟨len, hfound⟩ := h.found
  obtain ⟨len', hfound'⟩ := h.found'
  have hheader := h.header
  have hfits := h.fits
  have hfits' := h.fits'
  have htag : (b.drop (off + 4)).take 20 = (b'.drop (off + 4)).take 20 :=
    h.slice (by omega) (by omega)
  have hdigested : (b.drop 4).take (off - 4) = (b'.drop 4).take (off - 4) :=
    h.slice le_rfl (by omega)
  have hin : ¬ (off + integritySize > b.length ∨ off < headerLen) := by omega
  have hin' : ¬ (off + integritySize > b'.length ∨ off < headerLen) := by omega
  simp only [verifyIntegrity, hfound, hfound', h.start, htag, hdigested, if_neg hin, if_neg hin']

variable {m m' : Message} (hm : parse b = .ok m) (hm' : parse b' = .ok m')

include hm hm'

theorem typ_eq : m.typ = m'.typ := by
  rw [(parse_eq_ok hm).2.2.1, (parse_eq_ok hm').2.2.1, h.start]

theorem txid_eq : m.txid = m'.txid := by
  have hheaderLen : headerLen = 20 := rfl
  have hheader := h.header
  rw [(parse_eq_ok hm).2.2.2.1, (parse_eq_ok hm').2.2.2.1, h.slice (by omega) (by omega)]

end SameCovered

/-! ### The attributes before the digest -/

/-- The kind of the attribute that the bytes begin with. -/
def kindAt (rest : Bytes) : UInt16 := UInt16.ofNat (fromBeBytes (rest.take 2))

def lengthAt (rest : Bytes) : ℕ := fromBeBytes ((rest.drop 2).take 2)

theorem parseAttributes_succ_eq_ok {txid : TransactionId} {fuel : ℕ} {rest : Bytes}
    {attributes : List Attribute} (hlen : 4 ≤ rest.length) :
    parseAttributes txid (fuel + 1) rest = .ok attributes ↔
      4 + paddedLen (lengthAt rest) ≤ rest.length ∧ ∃ a tail,
        decodeAttribute (kindAt rest) ((rest.drop 4).take (lengthAt rest)) txid = .ok a ∧
        parseAttributes txid fuel (rest.drop (4 + paddedLen (lengthAt rest))) = .ok tail ∧
        a :: tail = attributes := by
  have hne : rest ≠ [] := by
    rintro rfl
    cases hlen
  have hpad := le_paddedLen (lengthAt rest)
  rw [parseAttributes, if_neg hne, if_neg (by omega)]
  have hkind : UInt16.ofNat (fromBeBytes (rest.take 2)) = kindAt rest := rfl
  have hlength : fromBeBytes ((rest.drop 2).take 2) = lengthAt rest := rfl
  simp only [hkind, hlength]
  by_cases hfits : 4 + paddedLen (lengthAt rest) ≤ rest.length
  · rw [if_neg (by omega)]
    cases decodeAttribute (kindAt rest) ((rest.drop 4).take (lengthAt rest)) txid with
    | error e => simp
    | ok a =>
        dsimp only
        rw [if_neg (by omega)]
        cases parseAttributes txid fuel (rest.drop (4 + paddedLen (lengthAt rest))) with
        | error e => simp [Except.map]
        | ok tail => simp [Except.map, hfits]
  · have hfalse : ∀ p : Prop, ¬ (4 + paddedLen (lengthAt rest) ≤ rest.length ∧ p) :=
      fun p h => hfits h.1
    simp only [hfalse, iff_false]
    split
    · rintro ⟨⟩
    · split
      · rintro ⟨⟩
      · rw [if_pos (by omega)]
        rintro ⟨⟩

/-- The bytes from a position to another. -/
def window (buf : Bytes) (pos stop : ℕ) : Bytes := (buf.drop pos).take (stop - pos)

section Window

variable {buf : Bytes} {pos stop : ℕ}

theorem length_window (h : stop ≤ buf.length) : (window buf pos stop).length = stop - pos := by
  rw [window, List.length_take, List.length_drop]
  omega

theorem drop_window (k : ℕ) : (window buf pos stop).drop k = window buf (pos + k) stop := by
  rw [window, window, List.drop_take, List.drop_drop, Nat.sub_sub]

theorem slice_window {k n : ℕ} (h : pos + k + n ≤ stop) :
    ((window buf pos stop).drop k).take n = ((buf.drop pos).drop k).take n := by
  rw [window, List.drop_take, List.take_take, min_eq_left (by omega)]

theorem kindAt_window (h : pos + 4 ≤ stop) : kindAt (window buf pos stop) = kindAt (buf.drop pos) := by
  rw [kindAt, kindAt, window, List.take_take, min_eq_left (by omega)]

theorem lengthAt_window (h : pos + 4 ≤ stop) :
    lengthAt (window buf pos stop) = lengthAt (buf.drop pos) := by
  rw [lengthAt, lengthAt, slice_window (by omega)]

theorem parseAttributes_window {txid : TransactionId} {fuel : ℕ} {attributes : List Attribute}
    (hstop : stop ≤ buf.length) (hpos : pos + 4 ≤ stop) :
    parseAttributes txid (fuel + 1) (window buf pos stop) = .ok attributes ↔
      pos + (4 + paddedLen (lengthAt (buf.drop pos))) ≤ stop ∧ ∃ a tail,
        decodeAttribute (kindAt (buf.drop pos))
          (((buf.drop pos).drop 4).take (lengthAt (buf.drop pos))) txid = .ok a ∧
        parseAttributes txid fuel
          (window buf (pos + (4 + paddedLen (lengthAt (buf.drop pos)))) stop) = .ok tail ∧
        a :: tail = attributes := by
  have hpad := le_paddedLen (lengthAt (buf.drop pos))
  have hlength := @length_window buf pos stop hstop
  rw [parseAttributes_succ_eq_ok (by omega), lengthAt_window hpos, kindAt_window hpos, hlength]
  by_cases hfits : pos + (4 + paddedLen (lengthAt (buf.drop pos))) ≤ stop
  · rw [slice_window (by omega), drop_window, and_iff_right hfits, and_iff_right (by omega)]
  · simp only [hfits, false_and, iff_false, not_and]
    intro hle
    omega

end Window

theorem parseAttributes_append {buf : Bytes} {want : UInt16} {stop off len : ℕ} {txid : TransactionId}
    (hstop : stop ≤ buf.length) {fuel pos : ℕ}
    (hscan : scanAttributes buf want stop fuel pos = some (off, len)) {fuel' : ℕ}
    (hfuel : stop - pos ≤ fuel') {attributes : List Attribute}
    (hparse : parseAttributes txid fuel' (window buf pos stop) = .ok attributes) :
    pos ≤ off ∧ off ≤ stop ∧ ∃ before after, attributes = before ++ after ∧
      ∀ n, off - pos ≤ n → parseAttributes txid n (window buf pos off) = .ok before := by
  induction fuel generalizing pos fuel' attributes with
  | zero => cases hscan
  | succ fuel ih =>
      rw [scanAttributes] at hscan
      split at hscan
      · rename_i hpos
        change (if kindAt (buf.drop pos) = want then some (pos, lengthAt (buf.drop pos)) else
          scanAttributes buf want stop fuel (pos + (4 + paddedLen (lengthAt (buf.drop pos))))) = _
          at hscan
        split at hscan
        · cases hscan
          refine ⟨le_rfl, by omega, [], attributes, rfl, fun n _ => ?_⟩
          rw [window, Nat.sub_self, List.take_zero]
          cases n <;> rfl
        · obtain ⟨k, rfl⟩ : ∃ k, fuel' = k + 1 := ⟨fuel' - 1, by omega⟩
          obtain ⟨hfits, a, tail, ha, htail, rfl⟩ := (parseAttributes_window hstop hpos).mp hparse
          obtain ⟨hle, hoff, before, after, rfl, hbefore⟩ := ih hscan (by omega) htail
          refine ⟨by omega, hoff, a :: before, after, rfl, fun n hn => ?_⟩
          obtain ⟨n, rfl⟩ : ∃ n', n = n' + 1 := ⟨n - 1, by omega⟩
          exact (parseAttributes_window (by omega) (by omega)).mpr
            ⟨hle, a, before, ha, hbefore n (by omega), rfl⟩
      · cases hscan

/-- The attributes before the digest. -/
def coveredAttributes (txid : TransactionId) (buf : Bytes) : List Attribute :=
  match findRawAttribute buf Attr.messageIntegrity with
  | none => []
  | some (off, _) =>
      match parseAttributes txid off (window buf headerLen off) with
      | .ok attributes => attributes
      | .error _ => []

theorem attributes_of_parse {buf : Bytes} {m : Message} (h : parse buf = .ok m) :
    ∃ after, m.attributes = coveredAttributes m.txid buf ++ after := by
  obtain ⟨hheader, hdeclared, -, -, hparse⟩ := parse_eq_ok h
  have hheaderLen : headerLen = 20 := rfl
  unfold coveredAttributes
  cases hfound : findRawAttribute buf Attr.messageIntegrity with
  | none => exact ⟨m.attributes, rfl⟩
  | some found =>
      obtain ⟨off, len⟩ := found
      rw [findRawAttribute, if_neg (by omega), min_eq_left (by omega)] at hfound
      have hwindow : (buf.drop headerLen).take (declaredLength buf) =
          window buf headerLen (headerLen + declaredLength buf) := by
        rw [window, Nat.add_sub_cancel_left]
      rw [hwindow] at hparse
      obtain ⟨-, -, before, after, hattributes, hbefore⟩ := parseAttributes_append (by omega) hfound
        (by rw [length_window (by omega)]) hparse
      dsimp only
      rw [hbefore off (by omega)]
      exact ⟨after, hattributes⟩

namespace SameCovered

variable {off : ℕ} {b b' : Bytes} (h : SameCovered off b b')

include h

theorem coveredAttributes_eq (txid : TransactionId) :
    coveredAttributes txid b = coveredAttributes txid b' := by
  have hheaderLen : headerLen = 20 := rfl
  obtain ⟨len, hfound⟩ := h.found
  obtain ⟨len', hfound'⟩ := h.found'
  have hheader := h.header
  have hwindow : window b headerLen off = window b' headerLen off :=
    h.slice (by omega) (by omega)
  simp only [coveredAttributes, hfound, hfound', hwindow]

theorem get_eq {m m' : Message} (hm : parse b = .ok m) (hm' : parse b' = .ok m') {kind : UInt16}
    (hkind : ∃ a ∈ coveredAttributes m.txid b, a.kind = kind) : m.get kind = m'.get kind := by
  obtain ⟨after, hafter⟩ := attributes_of_parse hm
  obtain ⟨after', hafter'⟩ := attributes_of_parse hm'
  obtain ⟨a, ha, hak⟩ := hkind
  rw [← h.txid_eq hm hm', ← h.coveredAttributes_eq] at hafter'
  have hsome : ((coveredAttributes m.txid b).find? fun a => a.kind = kind).isSome := by
    rw [List.find?_isSome]
    exact ⟨a, ha, decide_eq_true hak⟩
  have hfind : ∀ rest, (coveredAttributes m.txid b ++ rest).find? (fun a => a.kind = kind) =
      (coveredAttributes m.txid b).find? fun a => a.kind = kind := by
    intro rest
    rw [List.find?_append]
    exact Option.or_of_isSome hsome
  unfold Message.get
  rw [hafter, hafter', hfind, hfind]

end SameCovered

end Vantablack.Net.Stun
