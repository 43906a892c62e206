import Vantablack.Ice.Agent
import Vantablack.Lib.Inet
import Vantablack.Lib.Text
import Vantablack.Net.Tunnel

/-!
Numbers and IP addresses as words of a text: `Display` and `FromStr` of the standard library. What
`Display` writes is one word, and `FromStr` reads it back.
-/

namespace Vantablack.Ice

open Lib Lib.Text Layers Receive Net Stun List Inet

/-- ASCII bytes as characters. -/
def asciiChars (bytes : Bytes) : List Char := bytes.map fun b => Char.ofNat b.toNat

/-- `IpAddr::from_str`: nothing may be left over. -/
def parseIp (s : List Char) : Option IpAddr :=
  let bytes := utf8 (String.ofList s)
  match readIpv4Addr bytes with
  | some (octets, []) => some (.v4 (Block.zeroPadded 4 (octets.map UInt8.ofNat)))
  | some _ => none
  | none =>
      match readIpv6Addr bytes with
      | some (segments, []) => some (.v6 (Block.zeroPadded 16 (segments.flatMap (toBeBytes 2))))
      | _ => none

/-! ### Characters -/

/-- Bytes of printing ASCII characters. -/
def Printing (bytes : Bytes) : Prop := ∀ b ∈ bytes, 33 ≤ b.toNat ∧ b.toNat < 128

section Chars

variable {bytes : Bytes}

theorem utf8_asciiChars (h : Printing bytes) : utf8 (String.ofList (asciiChars bytes)) = bytes :=
  utf8_ascii fun b hb => (h b hb).2

theorem isWhitespace_eq_false {c : Char} (h : 33 ≤ c.toNat ∧ c.toNat < 128) :
    isWhitespace c = false := by
  simp [isWhitespace]
  omega

theorem toNat_ofNat {n : ℕ} (h : n < 128) : (Char.ofNat n).toNat = n := by
  have hvalid : n.isValidChar := Or.inl (by omega)
  rw [Char.toNat_ofNat, if_pos hvalid]

theorem word_asciiChars (h : Printing bytes) (hne : bytes ≠ []) : Word (asciiChars bytes) where
  ne_nil := by simpa [asciiChars] using hne
  solid c hc := by
    obtain ⟨b, hb, rfl⟩ := mem_map.mp hc
    apply isWhitespace_eq_false
    rw [toNat_ofNat (h b hb).2]
    exact h b hb

theorem printing_append {bytes' : Bytes} (h : Printing bytes) (h' : Printing bytes') :
    Printing (bytes ++ bytes') :=
  forall_mem_append.mpr ⟨h, h'⟩

theorem printing_cons {b : UInt8} (hb : 33 ≤ b.toNat ∧ b.toNat < 128) (h : Printing bytes) :
    Printing (b :: bytes) :=
  forall_mem_cons.mpr ⟨hb, h⟩

end Chars

/-! ### Numbers -/

section Numbers

variable {radix n : ℕ}

theorem asciiChars_numeral (hradix : 1 < radix) (hradix' : radix ≤ 16) :
    asciiChars (numeral radix n) = Nat.toDigits radix n := by
  have hdigit : ∀ d < 16, Char.ofNat (Lib.digitChar d).toNat = d.digitChar := by decide
  induction n using Nat.strong_induction_on with
  | _ n ih =>
      by_cases hn : n < radix
      · rw [Nat.toDigits_of_lt_base hn, ← hdigit n (by omega)]
        by_cases hzero : n = 0
        · subst hzero
          rfl
        · rw [numeral, numeralDigits, if_neg hzero, Nat.digits_of_lt radix n hzero hn]
          rfl
      · have hpos : n / radix < n := Nat.div_lt_self (by omega) hradix
        have hquot : n / radix ≠ 0 := (Nat.div_pos (by omega) (by omega)).ne'
        rw [Nat.toDigits_of_base_le hradix (by omega), ← ih _ hpos, numeral, numeral, numeralDigits,
          numeralDigits, if_neg hquot, if_neg (by omega), Nat.digits_def' hradix (by omega),
          reverse_cons, map_append, asciiChars, map_append,
          ← hdigit (n % radix) ((Nat.mod_lt _ (by omega)).trans_le hradix')]
        rfl

theorem printing_numeral (hradix : 1 < radix) (hradix' : radix ≤ 16) :
    Printing (numeral radix n) := by
  intro b hb
  have hbounds := mem_numeral hradix (by omega) hb
  omega

theorem numeral_ne_nil (radix n : ℕ) : numeral radix n ≠ [] := by
  simpa [numeral] using numeralDigits_ne_nil radix n

theorem word_toDigits : Word (Nat.toDigits 10 n) := by
  rw [← asciiChars_numeral (by decide) (by decide)]
  exact word_asciiChars (printing_numeral (by decide) (by decide)) (numeral_ne_nil 10 n)

theorem parseUnsigned_eq (bound : ℕ) (s : List Char) :
    ∃ digits, (s.head? ≠ some '+' → digits = s) ∧
      parseUnsigned bound s =
        if digits.isEmpty || !digits.all Char.isDigit then none
        else if Nat.ofDigitChars 10 digits 0 < bound then some (Nat.ofDigitChars 10 digits 0)
        else none := by
  simp only [Nat.ofDigitChars_eq_foldl]
  refine ⟨_, fun hplus => ?_, rfl⟩
  split
  · exact absurd rfl hplus
  · rfl

theorem parseUnsigned_toDigits {bound : ℕ} (h : n < bound) :
    parseUnsigned bound (Nat.toDigits 10 n) = some n := by
  have hdigits : ∀ c ∈ Nat.toDigits 10 n, c.isDigit = true :=
    fun c hc => Nat.isDigit_of_mem_toDigits (by decide) (by decide) hc
  have hplus : (Nat.toDigits 10 n).head? ≠ some '+' := by
    intro hhead
    exact absurd (hdigits '+' (mem_of_mem_head? hhead)) (by decide)
  have hne : (Nat.toDigits 10 n).isEmpty = false := by simp
  obtain ⟨digits, heq, hparse⟩ := parseUnsigned_eq bound (Nat.toDigits 10 n)
  rw [hparse, heq hplus, hne, all_eq_true.mpr hdigits, Nat.ofDigitChars_ten_toDigits]
  exact if_pos h

theorem lt_of_parseUnsigned {bound : ℕ} {s : List Char} (h : parseUnsigned bound s = some n) :
    n < bound := by
  obtain ⟨digits, -, hparse⟩ := parseUnsigned_eq bound s
  rw [hparse] at h
  split_ifs at h with _ hlt
  cases h
  exact hlt

end Numbers

/-! ### Addresses -/

theorem asciiChars_append (bytes bytes' : Bytes) :
    asciiChars (bytes ++ bytes') = asciiChars bytes ++ asciiChars bytes' := map_append

section Groups

variable {radix : ℕ} {sep : UInt8}

theorem asciiChars_groupsText (hradix : 1 < radix) (hradix' : radix ≤ 16) (groups : List ℕ) :
    asciiChars (groupsText radix sep true groups) =
      [Char.ofNat sep.toNat].intercalate (groups.map (Nat.toDigits radix)) := by
  induction groups with
  | nil => rfl
  | cons g groups ih =>
      cases groups with
      | nil =>
          rw [groupsText, groupsText, append_nil, lead, if_pos rfl,
            nil_append, asciiChars_numeral hradix hradix', map_singleton,
            intercalate_singleton]
      | cons g' groups =>
          have hnext : groupsText radix sep false (g' :: groups) =
              sep :: groupsText radix sep true (g' :: groups) := rfl
          rw [groupsText, lead, if_pos rfl, nil_append, hnext, asciiChars_append,
            asciiChars_numeral hradix hradix', map_cons, map_cons,
            intercalate_cons_cons, ← map_cons, ← ih, append_assoc,
            singleton_append]
          rfl

theorem forall_groupsText {P : UInt8 → Prop} (hsep : P sep)
    (hnumeral : ∀ g, ∀ b ∈ numeral radix g, P b) (first : Bool) (groups : List ℕ) :
    ∀ b ∈ groupsText radix sep first groups, P b := by
  induction groups generalizing first with
  | nil =>
      intro b hb
      cases hb
  | cons g groups ih =>
      have hlead : ∀ b ∈ lead sep first, P b := by
        intro b hb
        cases first with
        | true => cases hb
        | false => rwa [mem_singleton.mp hb]
      exact forall_mem_append.mpr
        ⟨hlead, forall_mem_append.mpr ⟨hnumeral g, ih false⟩⟩

theorem printing_groupsText (hradix : 1 < radix) (hradix' : radix ≤ 16)
    (hsep : 33 ≤ sep.toNat ∧ sep.toNat < 128) (groups : List ℕ) :
    Printing (groupsText radix sep true groups) :=
  forall_groupsText hsep (fun _ => printing_numeral hradix hradix') true groups

end Groups

theorem toList_decimalText (octets : Bytes) :
    (decimalText octets).toList = asciiChars (ipv4Text (octets.map UInt8.toNat)) := by
  rw [ipv4Text, asciiChars_groupsText (by decide) (by decide), decimalText,
    String.toList_intercalate, map_map, map_map]
  congr 1
  apply map_congr_left
  intro b _
  exact Nat.toList_repr

theorem toList_hexJoin (groups : List ℕ) :
    (String.intercalate ":" (groups.map hexText)).toList =
      asciiChars (groupsText 16 colon true groups) := by
  rw [asciiChars_groupsText (by decide) (by decide), String.toList_intercalate, map_map]
  congr 1
  apply map_congr_left
  intro g _
  exact String.toList_ofList

theorem longestZeros_eq (groups : List ℕ) (i : ℕ) (current best : Span) :
    longestZeros groups i (current.start, current.len) (best.start, best.len) =
      ((zeroSpanFrom i best current groups).start,
        (zeroSpanFrom i best current groups).len) := by
  induction groups generalizing i current best with
  | nil => rfl
  | cons g groups ih =>
      rw [longestZeros, zeroSpanFrom]
      by_cases hg : g = 0
      · rw [if_pos hg, if_pos hg]
        set run : Span :=
          { start := if current.len = 0 then i else current.start, len := current.len + 1 }
        have hrun : (if current.len = 0 then (i, 1) else (current.start, current.len + 1)) =
            (run.start, run.len) := by
          by_cases hzero : current.len = 0 <;> simp [run, hzero]
        dsimp only
        rw [hrun, ← ih]
        congr 1
        by_cases hlong : best.len < run.len
        · rw [if_pos hlong, if_pos hlong]
        · rw [if_neg hlong, if_neg hlong]
      · rw [if_neg hg, if_neg hg]
        exact ih (i + 1) ⟨0, 0⟩ best

/-! ### IPv6 -/

theorem segment_lt (a b : UInt8) : fromBeBytes [a, b] < 65536 := by
  simpa using fromBeBytes_lt [a, b]

theorem toNat_segment (a b : UInt8) :
    (UInt16.ofNat (fromBeBytes [a, b])).toNat = fromBeBytes [a, b] := by
  rw [UInt16.toNat_ofNat', Nat.mod_eq_of_lt (segment_lt a b)]

theorem toBeBytes_segment (a b : UInt8) : toBeBytes 2 (fromBeBytes [a, b]) = [a, b] :=
  toBeBytes_fromBeBytes [a, b]

theorem segment_split (a b : UInt8) :
    fromBeBytes [a, b] / 256 = a.toNat ∧ fromBeBytes [a, b] % 256 = b.toNat := by
  have hvalue : fromBeBytes [a, b] = a.toNat * 256 + b.toNat := by simp [fromBeBytes]
  have ha := a.toNat_lt
  have hb := b.toNat_lt
  omega

variable (octets : Octets 16)

theorem segments_spec :
    (segments octets).length = 8 ∧ (∀ g ∈ segments octets, g < 65536) ∧
      (segments octets).flatMap (toBeBytes 2) = octets.toList ∧
      ((segments octets).drop 6).flatMap (fun g => [g / 256, g % 256]) =
        (octets.toList.drop 12).map UInt8.toNat := by
  obtain ⟨l, hl⟩ := octets
  match l, hl with
  | [b0, b1, b2, b3, b4, b5, b6, b7, b8, b9, b10, b11, b12, b13, b14, b15], hl =>
    have hsegments : segments ⟨_, hl⟩ = [fromBeBytes [b0, b1], fromBeBytes [b2, b3],
        fromBeBytes [b4, b5], fromBeBytes [b6, b7], fromBeBytes [b8, b9], fromBeBytes [b10, b11],
        fromBeBytes [b12, b13], fromBeBytes [b14, b15]] := by
      simp only [segments, List.Vector.toList, chunks2, map_cons, map_nil, toNat_segment]
    rw [hsegments]
    refine ⟨rfl, ?_, ?_, ?_⟩
    · simp only [forall_mem_cons, segment_lt, true_and]
      intro g hg
      cases hg
    · simp only [flatMap_cons, flatMap_nil, toBeBytes_segment]
      rfl
    · simp only [drop_succ_cons, drop_zero, flatMap_cons, flatMap_nil,
        segment_split]
      rfl

theorem toIpv4Mapped_eq {groups : List ℕ} (hlen : groups.length = 8) :
    toIpv4Mapped groups =
      if groups.take 6 = [0, 0, 0, 0, 0, 0xFFFF] then
        some ((groups.drop 6).flatMap fun g => [g / 256, g % 256])
      else none := by
  split
  · rename_i hfront
    obtain ⟨ab, cd, hback⟩ : ∃ ab cd, groups.drop 6 = [ab, cd] := by
      apply length_eq_two.mp
      rw [length_drop, hlen]
    rw [← take_append_drop 6 groups, hfront, hback]
    rfl
  · rename_i hfront
    unfold toIpv4Mapped
    split
    · exact absurd rfl hfront
    · rfl

theorem toList_ipText_v6 :
    (ipText (.v6 octets)).toList = asciiChars (ipv6Text (segments octets)) := by
  obtain ⟨hlen, -, -, hback⟩ := segments_spec octets
  have hzeros : longestZeros (segments octets) 0 (0, 0) (0, 0) =
      ((zeroSpan (segments octets)).start, (zeroSpan (segments octets)).len) :=
    longestZeros_eq (segments octets) 0 ⟨0, 0⟩ ⟨0, 0⟩
  rw [ipv6Text, toIpv4Mapped_eq hlen, ipText]
  dsimp only
  rw [hzeros]
  by_cases hmapped : (segments octets).take 6 = [0, 0, 0, 0, 0, 0xFFFF]
  · rw [if_pos hmapped, if_pos hmapped, String.toList_append, toList_decimalText, ← hback]
    have hfront : ("::ffff:" : String).toList =
        asciiChars (colon :: colon :: (numeral 16 0xFFFF ++ [colon])) := by
      decide
    rw [hfront, ← asciiChars_append, cons_append, cons_append, append_assoc,
      singleton_append]
  · rw [if_neg hmapped, if_neg hmapped]
    dsimp only
    by_cases hlong : 1 < (zeroSpan (segments octets)).len
    · rw [if_pos hlong, if_pos hlong, String.toList_append, String.toList_append, toList_hexJoin,
        toList_hexJoin, asciiChars_append, append_assoc]
      rfl
    · rw [if_neg hlong, if_neg hlong, toList_hexJoin]

/-! ### Reading addresses -/

/-- The bytes that `Display` writes. -/
def ipBytes : IpAddr → Bytes
  | .v4 octets => ipv4Text (octets.toList.map UInt8.toNat)
  | .v6 octets => ipv6Text (segments octets)

variable (ip : IpAddr)

theorem toList_ipText : (ipText ip).toList = asciiChars (ipBytes ip) := by
  cases ip with
  | v4 octets => exact toList_decimalText octets.toList
  | v6 octets => exact toList_ipText_v6 octets

theorem printing_ipBytes : Printing (ipBytes ip) := by
  have hcolon : 33 ≤ colon.toNat ∧ colon.toNat < 128 := by decide
  have hv4 : ∀ octets, Printing (ipv4Text octets) := fun octets =>
    printing_groupsText (by decide) (by decide) (by decide) octets
  have hv6 : ∀ groups, Printing (groupsText 16 colon true groups) := fun groups =>
    printing_groupsText (by decide) (by decide) hcolon groups
  cases ip with
  | v4 octets => exact hv4 _
  | v6 octets =>
      rw [ipBytes, ipv6Text]
      split
      · refine printing_cons hcolon (printing_cons hcolon (printing_append ?_ ?_))
        · exact printing_numeral (by decide) (by decide)
        · exact printing_cons hcolon (hv4 _)
      · dsimp only
        split
        · exact printing_append (hv6 _) (printing_cons hcolon (printing_cons hcolon (hv6 _)))
        · exact hv6 _

theorem ends_nil : EndsGroups [] where
  stops := ⟨noDigit_nil, by simp⟩
  afterColon t ht := by cases ht

theorem readIpv4Addr_v4 (octets : Octets 4) :
    readIpv4Addr (ipBytes (.v4 octets)) = some (octets.toList.map UInt8.toNat, []) := by
  have hoctets : ∀ o ∈ octets.toList.map UInt8.toNat, o < 256 := by
    intro o ho
    obtain ⟨b, -, rfl⟩ := mem_map.mp ho
    exact b.toNat_lt
  have hread := readOctets_groupsText hoctets noDigit_nil true
  rwa [append_nil, length_map, octets.toList_length] at hread

theorem readIpv4Addr_v6 : readIpv4Addr (ipBytes (.v6 octets)) = none := by
  have hread : ∀ w : Bytes, (∀ b ∈ w, b ≠ dot) → readIpv4Addr w = none := by
    intro w hw
    have hnone := readIpv4Addr_eq_none (fun hdot => hw _ hdot rfl) ends_nil.stops
    rwa [append_nil] at hnone
  have hnumeral : ∀ g, ∀ b ∈ numeral 16 g, b ≠ dot := by
    rintro g b hb rfl
    exact dot_notMem_numeral g hb
  have hgroups : ∀ groups, ∀ b ∈ groupsText 16 colon true groups, b ≠ dot :=
    forall_groupsText (by decide) hnumeral true
  rw [ipBytes, ipv6Text]
  split
  · rw [readIpv4Addr, readOctets, readSeparator, if_pos rfl,
      readNumber_of_noDigit _ _ _ (noDigit_cons.mpr (by decide))]
    rfl
  · dsimp only
    split
    · refine hread _ (forall_mem_append.mpr ⟨hgroups _, ?_⟩)
      exact forall_mem_cons.mpr ⟨by decide, forall_mem_cons.mpr ⟨by decide, hgroups _⟩⟩
    · exact hread _ (hgroups _)

theorem readIpv6Addr_v6 :
    readIpv6Addr (ipBytes (.v6 octets)) = some (segments octets, []) := by
  obtain ⟨hlen, hlt, -, -⟩ := segments_spec octets
  have hread := readIpv6Addr_ipv6Text hlen hlt ends_nil
  rwa [append_nil] at hread

theorem parseIp_ipText : parseIp (ipText ip).toList = some ip := by
  rw [parseIp, toList_ipText, utf8_asciiChars (printing_ipBytes ip)]
  cases ip with
  | v4 octets =>
      have hmap : (octets.toList.map UInt8.toNat).map UInt8.ofNat = octets.toList := by
        have hid : ∀ b ∈ octets.toList, (UInt8.ofNat ∘ UInt8.toNat) b = id b :=
          fun b _ => UInt8.ofNat_toNat
        rw [map_map, map_congr_left hid, map_id]
      rw [readIpv4Addr_v4]
      dsimp only
      rw [hmap, Block.toList_inj.mp
        (Block.toList_zeroPadded_of_length octets.toList_length)]
  | v6 octets =>
      rw [readIpv4Addr_v6, readIpv6Addr_v6]
      dsimp only
      rw [(segments_spec octets).2.2.1, Block.toList_inj.mp
        (Block.toList_zeroPadded_of_length octets.toList_length)]

theorem word_ipText : Word (ipText ip).toList := by
  rw [toList_ipText]
  refine word_asciiChars (printing_ipBytes ip) ?_
  intro hnil
  have hparse := parseIp_ipText ip
  rw [toList_ipText, hnil] at hparse
  cases hparse

end Vantablack.Ice
