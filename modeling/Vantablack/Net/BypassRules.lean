import Vantablack.Net.Bypass

/-!
The normal forms of split-tunnel rules. An address is written in one way only, a host rule has no
character that a URL gives a meaning to, and a block starts with a digit; so a rule that was stored
is stored as it is when it is entered again.
-/

namespace Vantablack.Net

open Lib Lib.Text Ice List

/-! ### The text of an address -/

/-- The text that an address is written as. -/
def octetsText (octets : List ℕ) : List Char := asciiChars (Inet.ipv4Text octets)

theorem printing_ipv4Text (octets : List ℕ) : Printing (Inet.ipv4Text octets) :=
  printing_groupsText (by decide) (by decide) (by decide) octets

theorem octetsText_eq (octets : List ℕ) :
    octetsText octets = ['.'].intercalate (octets.map (Nat.toDigits 10)) :=
  asciiChars_groupsText (by decide) (by decide) octets

theorem octetsText_cons_cons (o o' : ℕ) (octets : List ℕ) :
    octetsText (o :: o' :: octets) = Nat.toDigits 10 o ++ '.' :: octetsText (o' :: octets) := by
  rw [octetsText_eq, octetsText_eq, map_cons, map_cons, intercalate_cons_cons,
    append_assoc, singleton_append]

theorem octetsText_singleton (o : ℕ) : octetsText [o] = Nat.toDigits 10 o := by
  rw [octetsText_eq, map_singleton, intercalate_singleton]

theorem isDigit_of_mem_toDigits {n : ℕ} {c : Char} (h : c ∈ Nat.toDigits 10 n) :
    c.isDigit = true :=
  Nat.isDigit_of_mem_toDigits (by decide) (by decide) h

theorem octetsText_chars {octets : List ℕ} (hne : octets ≠ []) :
    octetsText octets ≠ [] ∧ (∀ c ∈ octetsText octets, c.isDigit = true ∨ c = '.') ∧
      (∀ c ∈ (octetsText octets).head?, c.isDigit = true) ∧
      ∀ c ∈ (octetsText octets).getLast?, c.isDigit = true := by
  induction octets with
  | nil => exact absurd rfl hne
  | cons o octets ih =>
      have hdigits : Nat.toDigits 10 o ≠ [] := by simp
      cases octets with
      | nil =>
          rw [octetsText_singleton]
          exact ⟨hdigits, fun c hc => Or.inl (isDigit_of_mem_toDigits hc),
            fun c hc => isDigit_of_mem_toDigits (mem_of_mem_head? hc),
            fun c hc => isDigit_of_mem_toDigits (mem_of_mem_getLast? hc)⟩
      | cons o' octets =>
          obtain ⟨hrest, hchars, -, hlast⟩ := ih (cons_ne_nil o' octets)
          rw [octetsText_cons_cons]
          refine ⟨append_ne_nil_of_left_ne_nil hdigits _, fun c hc => ?_, fun c hc => ?_,
            fun c hc => ?_⟩
          · rcases mem_append.mp hc with hc | hc
            · exact Or.inl (isDigit_of_mem_toDigits hc)
            · rcases mem_cons.mp hc with rfl | hc
              · exact Or.inr rfl
              · exact hchars c hc
          · rw [head?_append_of_ne_nil _ hdigits] at hc
            exact isDigit_of_mem_toDigits (mem_of_mem_head? hc)
          · rw [getLast?_append_of_ne_nil _ (cons_ne_nil _ _),
              getLast?_cons_of_ne_nil hrest] at hc
            exact hlast c hc

theorem byteLen_asciiChars {bytes : Bytes} (h : Printing bytes) :
    byteLen (asciiChars bytes) = bytes.length := by
  have hutf8 := congrArg length (utf8_asciiChars h)
  rw [← hutf8]
  rfl

theorem isLabel_toDigits {n : ℕ} (h : n < 256) : isLabel (Nat.toDigits 10 n) = true := by
  have hnodash : ∀ o : Option Char, (∀ c ∈ o, c ∈ Nat.toDigits 10 n) → (o != some '-') = true := by
    intro o ho
    apply bne_iff_ne.mpr
    rintro rfl
    exact absurd (isDigit_of_mem_toDigits (ho '-' rfl)) (by decide)
  have hlen : byteLen (Nat.toDigits 10 n) ≤ 63 := by
    rw [← asciiChars_numeral (by decide) (by decide),
      byteLen_asciiChars (printing_numeral (by decide) (by decide)), numeral, length_map]
    exact (length_numeralDigits_le (k := 3) (by decide) (by decide) (by omega)).trans (by decide)
  rw [isLabel, hnodash _ fun c hc => mem_of_mem_head? hc,
    hnodash _ fun c hc => mem_of_mem_getLast? hc, decide_eq_true hlen]
  simp

/-- `Display` of an address, given as a number. -/
def addressText (ip : UInt32) : List Char :=
  octetsText ((toBeBytes 4 ip.toNat).map UInt8.toNat)

theorem eq_addressText {s : List Char} {ip : UInt32} (h : parseIpv4 s = some ip) :
    s = addressText ip := by
  rw [parseIpv4] at h
  split at h
  · rename_i octets hread
    cases h
    obtain ⟨hs, hlen, hall⟩ := Inet.eq_groupsText_of_readOctets hread
    rw [append_nil] at hs
    have hbytes : toBeBytes 4 (UInt32.ofNat (fromBeBytes (octets.map UInt8.ofNat))).toNat =
        octets.map UInt8.ofNat := by
      have hlt := fromBeBytes_lt (octets.map UInt8.ofNat)
      have hback := toBeBytes_fromBeBytes (octets.map UInt8.ofNat)
      rw [length_map, hlen] at hlt hback
      rw [UInt32.toNat_ofNat', Nat.mod_eq_of_lt (hlt.trans_eq (by norm_num)), hback]
    have hnats : (octets.map UInt8.ofNat).map UInt8.toNat = octets := by
      rw [map_map]
      refine (map_congr_left fun o ho => ?_).trans (map_id octets)
      exact UInt8.toNat_ofNat_of_lt' (hall o ho)
    have hutf8 : utf8 (String.ofList s) = utf8 (String.ofList (octetsText octets)) := by
      rw [octetsText, utf8_asciiChars (printing_ipv4Text octets)]
      exact hs
    rw [addressText, hbytes, hnats]
    exact String.ofList_injective (utf8_inj hutf8)
  · cases h

theorem length_ipv4Text_le (first : Bool) {octets : List ℕ} (h : ∀ o ∈ octets, o < 256) :
    (Inet.groupsText 10 Inet.dot first octets).length ≤ 4 * octets.length := by
  induction octets generalizing first with
  | nil => exact le_rfl
  | cons o octets ih =>
      have ho : o < 10 ^ 3 := (h o mem_cons_self).trans (by decide)
      have hnumeral : (numeral 10 o).length ≤ 3 := by
        rw [numeral, length_map]
        exact length_numeralDigits_le (by decide) (by decide) ho
      have hlead : (Inet.lead Inet.dot first).length ≤ 1 := by
        cases first <;> decide
      have hrest := ih false fun o' ho' => h o' (mem_cons_of_mem o ho')
      rw [Inet.groupsText, length_append, length_append, length_cons]
      omega

theorem octets_spec (ip : UInt32) :
    let octets := (toBeBytes 4 ip.toNat).map UInt8.toNat
    octets.length = 4 ∧ octets ≠ [] ∧ ∀ o ∈ octets, o < 256 := by
  have hlen : ((toBeBytes 4 ip.toNat).map UInt8.toNat).length = 4 := by
    rw [length_map, length_toBeBytes]
  refine ⟨hlen, ne_nil_of_length_pos (by rw [hlen]; decide), fun o ho => ?_⟩
  obtain ⟨b, -, rfl⟩ := mem_map.mp ho
  exact b.toNat_lt

theorem addressText_chars (ip : UInt32) :
    addressText ip ≠ [] ∧ (∀ c ∈ addressText ip, c.isDigit = true ∨ c = '.') ∧
      (∀ c ∈ (addressText ip).head?, c.isDigit = true) ∧
      ∀ c ∈ (addressText ip).getLast?, c.isDigit = true :=
  octetsText_chars (octets_spec ip).2.1

theorem stripPrefix_cons_ne {front : String} {c d : Char} {front' s : List Char}
    (hfront : front.toList = c :: front') (h : d ≠ c) : stripPrefix front (d :: s) = none := by
  rw [stripPrefix, hfront, isPrefixOf?, if_neg]
  exact fun heq => h (eq_of_beq heq).symm

theorem stripPrefix_of_digit {front : String} {c : Char} {front' s : List Char}
    (hfront : front.toList = c :: front') (hc : c.isDigit = false)
    (hs : ∀ d ∈ s.head?, d.isDigit = true) : stripPrefix front s = none := by
  cases s with
  | nil =>
      rw [stripPrefix, hfront]
      rfl
  | cons d s =>
      apply stripPrefix_cons_ne hfront
      rintro rfl
      exact absurd (hs d rfl) (by rw [hc]; exact Bool.false_ne_true)

theorem looksLikeHost_addressText (ip : UInt32) : looksLikeHost (addressText ip) = true := by
  obtain ⟨hlen, hne, hall⟩ := octets_spec ip
  obtain ⟨hnonempty, hchars, hhead, -⟩ := addressText_chars ip
  have hstar : addressText ip ≠ ['*'] := by
    intro heq
    have hdigit := hhead '*' (congrArg head? heq)
    exact absurd hdigit (by decide)
  have hdot : (addressText ip).head? ≠ some '.' := by
    intro heq
    exact absurd (hhead '.' heq) (by decide)
  have hstrip : stripPrefix "*." (addressText ip) = none :=
    stripPrefix_of_digit (c := '*') rfl (by decide) hhead
  have hbytes : byteLen (addressText ip) ≤ 16 := by
    rw [addressText, octetsText, byteLen_asciiChars (printing_ipv4Text _)]
    exact (length_ipv4Text_le true hall).trans_eq (by rw [hlen])
  have hshorter : ¬ maxRuleLen < byteLen (addressText ip) :=
    not_lt.mpr (hbytes.trans (by decide))
  have hhost : (addressText ip).all isHostChar = true := by
    apply all_eq_true.mpr
    intro c hc
    rcases hchars c hc with hdigit | rfl
    · simp [isHostChar, Char.isAlphanum, hdigit]
    · decide
  have hlabels : ((addressText ip).splitOn '.').all isLabel = true := by
    rw [addressText, octetsText_eq, splitOn_intercalate]
    · apply all_eq_true.mpr
      intro label hlabel
      obtain ⟨o, ho, rfl⟩ := mem_map.mp hlabel
      exact isLabel_toDigits (hall o ho)
    · intro label hlabel hmem
      obtain ⟨o, -, rfl⟩ := mem_map.mp hlabel
      exact absurd (isDigit_of_mem_toDigits hmem) (by decide)
    · exact fun h => hne (map_eq_nil_iff.mp h)
  have hshort : (addressText ip).isEmpty = false := isEmpty_eq_false_iff.mpr hnonempty
  rw [looksLikeHost, if_neg hstar, hstrip, Option.getD_none]
  dsimp only
  rw [hhost, hlabels, hshort, beq_false_of_ne hdot, decide_eq_false hshorter]
  rfl

/-! ### What a host rule looks like -/

/-- The characters of a host rule, a star included. -/
def IsRuleChar (c : Char) : Prop := isHostChar c = true ∨ c = '*'

theorem IsRuleChar.spec {c : Char} (h : IsRuleChar c) :
    isWhitespace c = false ∧ c ≠ '/' ∧ c ≠ ':' := by
  rcases h with h | rfl
  · refine ⟨isWhitespace_eq_false ?_, ?_, ?_⟩
    · simp only [isHostChar, Char.isAlphanum, Char.isAlpha, Char.isUpper, Char.isLower,
        Char.isDigit, Bool.or_eq_true, Bool.and_eq_true, decide_eq_true_eq, beq_iff_eq, ge_iff_le,
        UInt32.le_iff_toNat_le] at h
      change (((((65 ≤ c.toNat ∧ c.toNat ≤ 90) ∨ 97 ≤ c.toNat ∧ c.toNat ≤ 122) ∨
        48 ≤ c.toNat ∧ c.toNat ≤ 57) ∨ c = '.') ∨ c = '-') ∨ c = '_' at h
      rcases h with ((hrange | rfl) | rfl) | rfl
      · omega
      all_goals decide
    · rintro rfl
      exact absurd h (by decide)
    · rintro rfl
      exact absurd h (by decide)
  · decide

/-- What `looks_like_host` is for. -/
structure HostText (v : List Char) : Prop where
  ne_nil : v ≠ []
  chars : ∀ c ∈ v, IsRuleChar c
  head : v.head? ≠ some '.'
  last : v.getLast? ≠ some '.'

theorem hostText_of_target {target : List Char} (hne : target ≠ [])
    (hhead : target.head? ≠ some '.') (hchars : ∀ c ∈ target, isHostChar c = true)
    (hlabels : ∀ label ∈ target.splitOn '.', isLabel label = true) : HostText target := by
  refine ⟨hne, fun c hc => Or.inl (hchars c hc), hhead, fun hlast => ?_⟩
  obtain ⟨front, rfl⟩ := getLast?_eq_some_iff.mp hlast
  rw [splitOn_append_cons_self] at hlabels
  exact absurd (hlabels [] (mem_append_right _ mem_cons_self)) (by decide)

theorem hostText_of_looksLikeHost {v : List Char} (h : looksLikeHost v = true) : HostText v := by
  rw [looksLikeHost] at h
  split at h
  · rename_i hv
    subst hv
    exact ⟨by decide, by simp [IsRuleChar], by decide, by decide⟩
  · dsimp only at h
    split at h
    · cases h
    rename_i hshape
    split at h
    · cases h
    rename_i hchars
    simp only [Bool.or_eq_true, not_or, Bool.not_eq_true, Bool.not_eq_false'] at hshape hchars
    obtain ⟨⟨hne, -⟩, hhead⟩ := hshape
    have htarget := hostText_of_target (by simpa using hne) (by simpa using hhead)
      (fun c hc => all_eq_true.mp (by simpa using hchars) c hc)
      (fun label hlabel => all_eq_true.mp h label hlabel)
    cases hstrip : stripPrefix "*." v with
    | none => rwa [hstrip] at htarget
    | some target =>
        rw [hstrip, Option.getD_some] at htarget
        obtain rfl := eq_of_stripPrefix hstrip
        refine ⟨by simp, fun c hc => ?_, by simp, ?_⟩
        · rcases mem_append.mp hc with hc | hc
          · have hmark : c = '*' ∨ c = '.' := by simpa using hc
            exact hmark.symm.imp (fun hdot => by rw [hdot]; decide) id
          · exact htarget.chars c hc
        · rw [getLast?_append_of_ne_nil _ htarget.ne_nil]
          exact htarget.last

theorem dropPort_of_notMem {s : List Char} (h : ':' ∉ s) : dropPort s = s := by
  have hnone : rsplitOnce ':' s = none := by
    rw [rsplitOnce, splitOnce, if_neg fun hmem => h (mem_reverse.mp hmem)]
    rfl
  rw [dropPort, hnone]

theorem trimEndDots_of_last {s : List Char} (h : s.getLast? ≠ some '.') : trimEndDots s = s := by
  apply rdropWhile_eq_self_iff.mpr
  intro hne heq
  exact h (by rw [getLast?_eq_some_getLast hne, eq_of_beq heq])

theorem takeWhile_ne_of_notMem {c : Char} {s : List Char} (h : c ∉ s) :
    s.takeWhile (· ≠ c) = s := by
  apply takeWhile_eq_self_iff.mpr
  intro d hd
  apply decide_eq_true
  rintro rfl
  exact h hd

theorem hostOf_hostText {v : List Char} (h : HostText v) : hostOf v = v := by
  have hslash : '/' ∉ v := fun hmem => (h.chars _ hmem).spec.2.1 rfl
  have hcolon : ':' ∉ v := fun hmem => (h.chars _ hmem).spec.2.2 rfl
  have htrimmed : Trimmed v := trimmed_of_forall fun c hc => (h.chars c hc).spec.1
  rw [hostOf, takeWhile_ne_of_notMem hslash, dropPort_of_notMem hcolon, trimEndDots_of_last h.last,
    trim_of_trimmed htrimmed]

theorem stripScheme_of_notMem {v : List Char} (h : '/' ∉ v) : stripScheme v = v := by
  have hmarks : ∀ scheme ∈ schemes, '/' ∈ scheme.toList := by decide
  have hnone : ∀ scheme ∈ schemes, stripPrefix scheme v = none := by
    intro scheme hscheme
    rw [Option.eq_none_iff_forall_ne_some]
    intro rest heq
    apply h
    rw [eq_of_stripPrefix heq]
    exact mem_append_left _ (hmarks scheme hscheme)
  rw [stripScheme, findSome?_eq_none_iff.mpr hnone, Option.getD_none]

theorem normalizeRule_host {v : List Char} (h : looksLikeHost v = true)
    (hlower : asciiLower v = v) : normalizeRule v = some v := by
  have htext := hostText_of_looksLikeHost h
  have hslash : '/' ∉ v := fun hmem => (htext.chars _ hmem).spec.2.1 rfl
  have htrimmed : Trimmed v := trimmed_of_forall fun c hc => (htext.chars c hc).spec.1
  have hne : v.isEmpty = false := isEmpty_eq_false_iff.mpr htext.ne_nil
  rw [normalizeRule, trim_of_trimmed htrimmed, hlower]
  dsimp only
  rw [hne, cidrRule, if_neg hslash, stripScheme_of_notMem hslash, hostOf_hostText htext, h]
  rfl

/-! ### Blocks -/

section Blocks

variable {a p s : List Char} {c : Cidr}

theorem splitOnce_append {d : Char} (h : d ∉ a) (p : List Char) :
    splitOnce d (a ++ d :: p) = some (a, p) := by
  have hall : ∀ e ∈ a, (decide (e ≠ d)) = true := by
    intro e he
    apply decide_eq_true
    rintro rfl
    exact h he
  rw [splitOnce, if_pos (mem_append_right a mem_cons_self),
    takeWhile_append_of_pos hall, dropWhile_append_of_pos hall]
  simp

theorem Cidr.spec_of_fromStr (h : Cidr.fromStr s = some c) :
    parseIpv4 (trim (s.takeWhile (· ≠ '/'))) = some c.network ∧ c.prefixLen ≤ 32 ∧
      ('/' ∉ s → c.prefixLen = 32) := by
  rw [Cidr.fromStr] at h
  dsimp only at h
  obtain ⟨ip, hip, h⟩ := Option.bind_eq_some_iff.mp h
  obtain ⟨bits, hbits, h⟩ := Option.bind_eq_some_iff.mp h
  split_ifs at h with hle
  cases h
  refine ⟨?_, not_lt.mp hle, fun hslash => ?_⟩
  · by_cases hslash : '/' ∈ s
    · rwa [splitOnce, if_pos hslash] at hip
    · rw [takeWhile_ne_of_notMem hslash]
      rwa [splitOnce, if_neg hslash] at hip
  · rw [splitOnce, if_neg hslash] at hbits
    have hdefault : parseUnsigned (2 ^ 8) (trim ['3', '2']) = some 32 := by decide
    exact Option.some.inj (hbits.symm.trans hdefault)

theorem Cidr.fromStr_append (h : '/' ∉ a) (p : List Char) :
    Cidr.fromStr (a ++ '/' :: p) = (parseIpv4 (trim a)).bind fun ip =>
      (parseUnsigned (2 ^ 8) (trim p)).bind fun bits =>
        if 32 < bits then none else some { network := ip, prefixLen := bits } := by
  rw [Cidr.fromStr, splitOnce_append h]
  rfl

theorem Cidr.fromStr_trim (s : List Char) : Cidr.fromStr (trim s) = Cidr.fromStr s := by
  by_cases hslash : '/' ∈ s
  · obtain ⟨a, p, rfl, ha⟩ := eq_append_cons_of_mem hslash
    have hfront : trim (a.dropWhile isWhitespace) = trim a := by
      conv_rhs => rw [← takeWhile_append_dropWhile (p := isWhitespace) (l := a)]
      exact (trim_space_append (fun c hc => mem_takeWhile_imp hc) _).symm
    have hback : trim (p.rdropWhile isWhitespace) = trim p := by
      conv_rhs => rw [← rdropWhile_append_rtakeWhile (p := isWhitespace) (l := p)]
      exact (trim_append_space (fun c hc => mem_rtakeWhile_imp hc) _).symm
    have ha' : '/' ∉ a.dropWhile isWhitespace :=
      fun hmem => ha ((dropWhile_suffix isWhitespace).subset hmem)
    rw [trim_append_cons (by decide), Cidr.fromStr_append ha', Cidr.fromStr_append ha, hfront,
      hback]
  · have htrim : '/' ∉ trim s := fun hmem => hslash (mem_of_mem_trim hmem)
    rw [Cidr.fromStr, Cidr.fromStr, splitOnce, if_neg htrim, splitOnce, if_neg hslash]
    dsimp only [Option.getD_none]
    rw [trim_of_trimmed (trimmed_trim s)]

theorem Cidr.digit_of_fromStr (h : Cidr.fromStr s = some c) (htrim : Trimmed s) :
    s ≠ [] ∧ ∀ d ∈ s.head?, d.isDigit = true := by
  have haddr := (Cidr.spec_of_fromStr h).1
  have hnil : parseIpv4 (trim []) = none := by decide
  cases s with
  | nil => cases hnil.symm.trans haddr
  | cons d s =>
      refine ⟨cons_ne_nil d s, ?_⟩
      rintro _ ⟨⟩
      have hspace : isWhitespace d = false := htrim.head d rfl
      by_cases hslash : d = '/'
      · subst hslash
        cases hnil.symm.trans haddr
      · rw [takeWhile_cons_of_pos (by simpa using hslash)] at haddr
        have hcons := trim_append_cons hspace [] (s.takeWhile (· ≠ '/'))
        rw [nil_append, dropWhile_nil, nil_append] at hcons
        rw [hcons] at haddr
        have htext := eq_addressText haddr
        exact (addressText_chars c.network).2.2.1 d (by rw [← htext]; rfl)

end Blocks

/-! ### What is stored -/

section Stored

variable {raw rule v : List Char}

theorem normalizeRule_cases (h : normalizeRule rule = some v) :
    cidrRule (asciiLower (trim rule)) = some v ∨
      cidrRule (asciiLower (trim rule)) = none ∧
        v = hostOf (stripScheme (asciiLower (trim rule))) ∧ looksLikeHost v = true := by
  rw [normalizeRule] at h
  dsimp only at h
  split at h
  · cases h
  cases hcidr : cidrRule (asciiLower (trim rule)) with
  | some block =>
      rw [hcidr] at h
      exact Or.inl h
  | none =>
      rw [hcidr] at h
      dsimp only at h
      split at h
      · rename_i hlooks
        cases h
        exact Or.inr ⟨rfl, rfl, hlooks⟩
      · cases h

theorem cidrRule_eq_some (h : cidrRule raw = some v) :
    '/' ∈ raw ∧ v = trim (cidrCandidate raw) ∧ Trimmed v ∧ ∃ c, Cidr.fromStr v = some c := by
  rw [cidrRule] at h
  split_ifs at h with hslash hsome
  cases h
  obtain ⟨c, hc⟩ := Option.isSome_iff_exists.mp hsome
  exact ⟨hslash, rfl, trimmed_trim _, c, (Cidr.fromStr_trim _).trans hc⟩

theorem cidrCandidate_of_digit (h : ∀ d ∈ raw.head?, d.isDigit = true) :
    cidrCandidate raw = raw := by
  have hhttps : stripPrefix "https://" raw = none :=
    stripPrefix_of_digit (c := 'h') rfl (by decide) h
  have hhttp : stripPrefix "http://" raw = none :=
    stripPrefix_of_digit (c := 'h') rfl (by decide) h
  rw [cidrCandidate, hhttps, hhttp]
  rfl

/-! A rule is made of characters of the text in lower case. -/

theorem stripPrefix_subset {front : String} {rest : List Char}
    (h : stripPrefix front raw = some rest) : rest ⊆ raw := by
  rw [eq_of_stripPrefix h]
  exact subset_append_right _ _

theorem cidrCandidate_subset (raw : List Char) : cidrCandidate raw ⊆ raw := by
  rw [cidrCandidate]
  cases hhttps : stripPrefix "https://" raw with
  | some rest => exact stripPrefix_subset hhttps
  | none =>
      cases hhttp : stripPrefix "http://" raw with
      | some rest => exact stripPrefix_subset hhttp
      | none => exact Subset.refl raw

theorem stripScheme_subset (raw : List Char) : stripScheme raw ⊆ raw := by
  rw [stripScheme]
  cases hfind : schemes.findSome? fun scheme => stripPrefix scheme raw with
  | none => exact Subset.refl raw
  | some rest =>
      obtain ⟨scheme, -, hstrip⟩ := exists_of_findSome?_eq_some hfind
      exact stripPrefix_subset hstrip

theorem splitOnce_eq_some {c : Char} {s a p : List Char} (h : splitOnce c s = some (a, p)) :
    s = a ++ c :: p ∧ c ∉ a := by
  rw [splitOnce] at h
  split_ifs at h with hmem
  obtain ⟨a', p', rfl, ha'⟩ := eq_append_cons_of_mem hmem
  have hsplit := splitOnce_append ha' p'
  rw [splitOnce, if_pos hmem] at hsplit
  cases h.symm.trans hsplit
  exact ⟨rfl, ha'⟩

theorem rsplitOnce_eq_some {c : Char} {s a p : List Char} (h : rsplitOnce c s = some (a, p)) :
    s = a ++ c :: p ∧ c ∉ p := by
  obtain ⟨⟨p', a'⟩, hsplit, heq⟩ := Option.map_eq_some_iff.mp h
  cases heq
  obtain ⟨hs, hp⟩ := splitOnce_eq_some hsplit
  refine ⟨?_, fun hmem => hp (mem_reverse.mp hmem)⟩
  rw [← reverse_reverse s, hs, reverse_append, reverse_cons, append_assoc,
    singleton_append]

theorem dropPort_subset (s : List Char) : dropPort s ⊆ s := by
  rw [dropPort]
  split
  · rename_i head port hsplit
    split
    · rw [(rsplitOnce_eq_some hsplit).1]
      exact subset_append_left head _
    · exact Subset.refl s
  · exact Subset.refl s

theorem hostOf_subset (s : List Char) : hostOf s ⊆ s := by
  intro c hc
  have htrim := (List.rdropWhile_prefix _ _).subset (mem_of_mem_trim hc)
  exact takeWhile_subset _ (dropPort_subset _ htrim)

theorem asciiLower_of_subset (h : v ⊆ asciiLower rule) : asciiLower v = v := by
  refine (map_congr_left fun c hc => ?_).trans (map_id v)
  obtain ⟨d, -, rfl⟩ := mem_map.mp (h hc)
  exact Char.toLower_toLower_eq_toLower d

theorem normalizeRule_idempotent (h : normalizeRule rule = some v) : normalizeRule v = some v := by
  rcases normalizeRule_cases h with hcidr | ⟨-, hv, hlooks⟩
  · obtain ⟨-, hv, htrimmed, c, hc⟩ := cidrRule_eq_some hcidr
    have hlower : asciiLower v = v := asciiLower_of_subset fun d hd =>
      cidrCandidate_subset _ (mem_of_mem_trim (hv ▸ hd))
    obtain ⟨hne, hdigit⟩ := Cidr.digit_of_fromStr hc htrimmed
    by_cases hslash : '/' ∈ v
    · have hblock : cidrRule v = some v := by
        rw [cidrRule, if_pos hslash, cidrCandidate_of_digit hdigit, hc, trim_of_trimmed htrimmed]
        rfl
      rw [normalizeRule, trim_of_trimmed htrimmed, hlower, hblock,
        isEmpty_eq_false_iff.mpr hne]
      rfl
    · have hparse := (Cidr.spec_of_fromStr hc).1
      rw [takeWhile_ne_of_notMem hslash, trim_of_trimmed htrimmed] at hparse
      exact normalizeRule_host (eq_addressText hparse ▸ looksLikeHost_addressText _) hlower
  · exact normalizeRule_host hlooks (asciiLower_of_subset fun d hd =>
      stripScheme_subset _ (hostOf_subset _ (hv ▸ hd)))

end Stored

end Vantablack.Net
