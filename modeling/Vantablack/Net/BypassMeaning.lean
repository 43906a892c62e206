import Vantablack.Net.BypassRules

/-!
What a split-tunnel rule is for. A text stands for everything, for a domain with its subdomains, for
a single name, an address or a block of addresses, and a destination is bypassed exactly if what the
text stands for covers it. A URL stands for its host.
-/

namespace Vantablack.Net

open Lib Lib.Text Ice List

/-- What a rule stands for. -/
inductive Meaning where
  | everything
  | domain (name : List Char)
  | only (name : List Char)
  | address (ip : UInt32)
  | block (network : UInt32) (prefixLen : ℕ)
  deriving DecidableEq

namespace Meaning

/-- Whether the destination with the host `t` is meant. A block is the addresses that agree with it
in the leading bits. -/
def Covers : Meaning → List Char → Prop
  | everything, _ => True
  | domain name, t => t = name ∨ ('.' :: name) <:+ t
  | only name, t => t = name
  | address ip, t => parseIpv4 t = some ip
  | block network prefixLen, t => ∃ ip ∈ parseIpv4 t,
      ip.toNat / 2 ^ (32 - prefixLen) = network.toNat / 2 ^ (32 - prefixLen)

instance : ∀ (m : Meaning) (t : List Char), Decidable (m.Covers t)
  | everything, _ => inferInstanceAs (Decidable True)
  | domain _, _ => inferInstanceAs (Decidable (_ ∨ _))
  | only _, _ => inferInstanceAs (Decidable (_ = _))
  | address _, _ => inferInstanceAs (Decidable (_ = _))
  | block _ _, _ => inferInstanceAs (Decidable (∃ _ ∈ _, _))

/-- A host on its own. A name without a dot stands for itself only. -/
def ofHost (host : List Char) : Meaning :=
  if host = ['*'] then everything
  else
    match stripPrefix "*." host with
    | some name => domain name
    | none =>
      match parseIpv4 host with
      | some ip => address ip
      | none => if '.' ∈ host then domain host else only host

end Meaning

/-- A scheme and what follows its mark. -/
def splitUrl (t : List Char) : Option (List Char × List Char) :=
  let p : Char → Bool := fun c => c != ':' && c != '/'
  (stripPrefix "://" (t.dropWhile p)).map (t.takeWhile p, ·)

/-- What a text stands for: a URL for its host, a block for itself, and any other text for the host
in front of its path. -/
def meaning (rule : List Char) : Meaning :=
  let t := asciiLower (trim rule)
  match splitUrl t with
  | some (_, rest) => .ofHost (hostOf rest)
  | none =>
    match if '/' ∈ t then Cidr.fromStr t else none with
    | some c => .block c.network c.prefixLen
    | none => .ofHost (hostOf t)

def PlainUrl : Option (List Char × List Char) → Prop
  | none => True
  | some (name, rest) => name = "socks5".toList ∨
      name ∈ ["https".toList, "http".toList] ∧ ∀ c ∈ Cidr.fromStr rest, c.prefixLen = 32

instance : ∀ url, Decidable (PlainUrl url)
  | none => inferInstanceAs (Decidable True)
  | some (_, _) => inferInstanceAs (Decidable (_ ∨ _ ∧ _))

/-- A text that is no URL, or a URL of a scheme that is taken off. What follows `http` or `https`
must not be a block of more than one address. -/
def Plain (rule : List Char) : Prop := PlainUrl (splitUrl (asciiLower (trim rule)))
  deriving Decidable

/-! ### Matching -/

theorem getLsbD_and_mask {k : ℕ} (hk : k < 32) (x : UInt32) {i : ℕ} (hi : i < 32) :
    (x &&& 0xFFFFFFFF <<< UInt32.ofNat k).toBitVec.getLsbD i =
      (decide (k ≤ i) && x.toNat.testBit i) := by
  have hshift : (UInt32.ofNat k).toBitVec % 32 = BitVec.ofNat 32 k := by
    apply BitVec.eq_of_toNat_eq
    simp
    omega
  have hones : (0xFFFFFFFF : UInt32).toBitVec = BitVec.allOnes 32 := rfl
  rw [UInt32.toBitVec_and, UInt32.toBitVec_shiftLeft, BitVec.getLsbD_and, hones, hshift,
    BitVec.shiftLeft_eq', BitVec.getLsbD_shiftLeft, BitVec.getLsbD_allOnes, Bool.and_comm]
  rw [BitVec.toNat_ofNat, Nat.mod_eq_of_lt (by omega)]
  by_cases hki : k ≤ i
  · have hlt : i - k < 32 := by omega
    simp only [hi, hlt, hki, not_lt.mpr hki, decide_true, decide_false, Bool.not_false,
      Bool.true_and]
    rfl
  · simp [hki, not_le.mp hki]

theorem and_mask_eq_iff {k : ℕ} (hk : k < 32) {x y : UInt32} :
    x &&& 0xFFFFFFFF <<< UInt32.ofNat k = y &&& 0xFFFFFFFF <<< UInt32.ofNat k ↔
      x.toNat / 2 ^ k = y.toNat / 2 ^ k := by
  constructor
  · intro h
    apply Nat.eq_of_testBit_eq
    intro j
    rw [Nat.testBit_div_two_pow, Nat.testBit_div_two_pow]
    by_cases hj : j + k < 32
    · have hx := getLsbD_and_mask hk x hj
      rw [h, getLsbD_and_mask hk y hj] at hx
      simpa using hx.symm
    · have hhigh : ∀ z : UInt32, z.toNat.testBit (j + k) = false := fun z =>
        Nat.testBit_lt_two_pow (z.toNat_lt.trans_le (Nat.pow_le_pow_right (by decide) (by omega)))
      rw [hhigh, hhigh]
  · intro h
    apply UInt32.toBitVec_inj.mp
    apply BitVec.eq_of_getLsbD_eq
    intro i hi
    rw [getLsbD_and_mask hk x hi, getLsbD_and_mask hk y hi]
    by_cases hki : k ≤ i
    · have hbit := congrArg (Nat.testBit · (i - k)) h
      simp only [Nat.testBit_div_two_pow, Nat.sub_add_cancel hki] at hbit
      rw [hbit]
    · rw [decide_eq_false hki, Bool.false_and, Bool.false_and]
theorem isUnder_iff {name t : List Char} :
    isUnder name t = true ↔ (Meaning.domain name).Covers t := by
  rw [isUnder, Bool.or_eq_true, beq_iff_eq, isSuffixOf_iff_suffix]
  rfl

theorem Cidr.contains_iff {c : Cidr} (h : c.prefixLen ≤ 32) (ip : UInt32) :
    c.contains ip = true ↔
      ip.toNat / 2 ^ (32 - c.prefixLen) = c.network.toNat / 2 ^ (32 - c.prefixLen) := by
  rw [Cidr.contains]
  by_cases hzero : c.prefixLen = 0
  · rw [if_pos hzero, hzero, Nat.div_eq_of_lt ip.toNat_lt, Nat.div_eq_of_lt c.network.toNat_lt]
    simp
  · rw [if_neg hzero, beq_iff_eq]
    exact and_mask_eq_iff (by omega)

variable {v : List Char}

theorem ruleMatches_host (h : HostText v) (t : List Char) :
    ruleMatches t v = true ↔ (Meaning.ofHost v).Covers t := by
  have hslash : '/' ∉ v := fun hmem => (h.chars _ hmem).spec.2.1 rfl
  rw [ruleMatches, Meaning.ofHost]
  by_cases hstar : v = ['*']
  · rw [if_pos hstar, if_pos hstar]
    exact iff_of_true rfl trivial
  rw [if_neg hstar, if_neg hstar]
  cases hwild : stripPrefix "*." v with
  | some name => exact isUnder_iff
  | none =>
      have hdot : stripPrefix "." v = none := by
        rw [Option.eq_none_iff_forall_ne_some]
        intro rest heq
        exact h.head (by rw [eq_of_stripPrefix heq]; rfl)
      dsimp only
      rw [hdot]
      dsimp only
      rw [if_neg hslash]
      cases parseIpv4 v with
      | some ip => exact beq_iff_eq
      | none =>
          dsimp only
          rw [Bool.or_eq_true, Bool.and_eq_true, beq_iff_eq, isSuffixOf_iff_suffix,
            contains_iff_mem]
          split
          · rename_i hmem
            exact or_congr_right (and_iff_right hmem)
          · rename_i hmem
            exact or_iff_left fun hboth => hmem hboth.1

theorem ruleMatches_block {c : Cidr} (hc : Cidr.fromStr v = some c) (htrim : Trimmed v)
    (t : List Char) : ruleMatches t v = true ↔ (Meaning.block c.network c.prefixLen).Covers t := by
  obtain ⟨hne, hdigit⟩ := Cidr.digit_of_fromStr hc htrim
  obtain ⟨haddr, hle, hwhole⟩ := Cidr.spec_of_fromStr hc
  have hstar : v ≠ ['*'] := by
    rintro rfl
    exact absurd (hdigit '*' rfl) (by decide)
  have hwild : stripPrefix "*." v = none := stripPrefix_of_digit (c := '*') rfl (by decide) hdigit
  have hdot : stripPrefix "." v = none := stripPrefix_of_digit (c := '.') rfl (by decide) hdigit
  rw [ruleMatches, if_neg hstar, hwild]
  dsimp only
  rw [hdot]
  dsimp only
  by_cases hslash : '/' ∈ v
  · rw [if_pos hslash, hc, Meaning.Covers]
    cases parseIpv4 t with
    | none => simp
    | some ip =>
        dsimp only
        rw [Cidr.contains_iff hle]
        simp
  · rw [takeWhile_ne_of_notMem hslash, trim_of_trimmed htrim] at haddr
    rw [if_neg hslash, haddr, Meaning.Covers, hwhole hslash]
    dsimp only
    rw [beq_iff_eq]
    cases parseIpv4 t with
    | none => simp
    | some ip =>
        simp [UInt32.toNat_inj]

/-! ### URLs -/

section Urls

variable {t name rest : List Char}

theorem splitUrl_append (hname : ∀ c ∈ name, (c != ':' && c != '/') = true) (rest : List Char) :
    splitUrl (name ++ ("://".toList ++ rest)) = some (name, rest) := by
  rw [splitUrl]
  have hmark : "://".toList ++ rest = ':' :: '/' :: '/' :: rest := rfl
  have htake : (name ++ ("://".toList ++ rest)).takeWhile (fun c => c != ':' && c != '/') =
      name := by
    rw [takeWhile_append_of_pos hname, hmark, takeWhile_cons_of_neg (by decide),
      append_nil]
  have hdrop : (name ++ ("://".toList ++ rest)).dropWhile (fun c => c != ':' && c != '/') =
      "://".toList ++ rest := by
    rw [dropWhile_append_of_pos hname, hmark, dropWhile_cons_of_neg (by decide)]
  rw [htake, hdrop, stripPrefix_append]
  rfl

theorem splitUrl_eq_some (h : splitUrl t = some (name, rest)) :
    t = name ++ ("://".toList ++ rest) := by
  obtain ⟨rest', hstrip, heq⟩ := Option.map_eq_some_iff.mp h
  cases heq
  rw [← eq_of_stripPrefix hstrip, takeWhile_append_dropWhile]

theorem stripPrefix_eq_splitUrl {front : String} (hfront : front.toList = name ++ "://".toList)
    (hname : ∀ c ∈ name, (c != ':' && c != '/') = true) (t : List Char) :
    stripPrefix front t = (splitUrl t).bind fun u => if u.1 = name then some u.2 else none := by
  cases hurl : splitUrl t with
  | none =>
      rw [Option.bind_none, Option.eq_none_iff_forall_ne_some]
      intro rest hstrip
      rw [eq_of_stripPrefix hstrip, hfront, append_assoc, splitUrl_append hname] at hurl
      cases hurl
  | some u =>
      obtain ⟨name', rest⟩ := u
      rw [Option.bind_some]
      split
      · rename_i heq
        dsimp only at heq ⊢
        rw [splitUrl_eq_some hurl, heq, ← append_assoc, ← hfront, stripPrefix_append]
      · rename_i hne
        rw [Option.eq_none_iff_forall_ne_some]
        intro rest' hstrip
        rw [eq_of_stripPrefix hstrip, hfront, append_assoc, splitUrl_append hname] at hurl
        cases hurl
        exact hne rfl

theorem stripPrefix_https (t : List Char) : stripPrefix "https://" t =
    (splitUrl t).bind fun u => if u.1 = "https".toList then some u.2 else none :=
  stripPrefix_eq_splitUrl rfl (all_eq_true.mp (by decide)) t

theorem stripPrefix_http (t : List Char) : stripPrefix "http://" t =
    (splitUrl t).bind fun u => if u.1 = "http".toList then some u.2 else none :=
  stripPrefix_eq_splitUrl rfl (all_eq_true.mp (by decide)) t

theorem stripPrefix_socks5 (t : List Char) : stripPrefix "socks5://" t =
    (splitUrl t).bind fun u => if u.1 = "socks5".toList then some u.2 else none :=
  stripPrefix_eq_splitUrl rfl (all_eq_true.mp (by decide)) t

theorem stripScheme_eq (t : List Char) : stripScheme t = (((stripPrefix "https://" t).or
    (stripPrefix "http://" t)).or (stripPrefix "socks5://" t)).getD t := by
  rw [stripScheme, schemes]
  cases h1 : stripPrefix "https://" t <;> cases h2 : stripPrefix "http://" t <;>
    cases h3 : stripPrefix "socks5://" t <;> simp [findSome?, h1, h2, h3]

theorem stripScheme_of_none (h : splitUrl t = none) : stripScheme t = t ∧ cidrCandidate t = t := by
  rw [stripScheme_eq, cidrCandidate, stripPrefix_https, stripPrefix_http, stripPrefix_socks5, h]
  exact ⟨rfl, rfl⟩

theorem stripScheme_of_web (h : splitUrl t = some (name, rest))
    (hname : name ∈ ["https".toList, "http".toList]) :
    stripScheme t = rest ∧ cidrCandidate t = rest := by
  rw [stripScheme_eq, cidrCandidate, stripPrefix_https, stripPrefix_http, stripPrefix_socks5, h]
  simp only [mem_cons, not_mem_nil, or_false] at hname
  rcases hname with rfl | rfl <;> exact ⟨rfl, rfl⟩

theorem stripScheme_of_socks5 (h : splitUrl t = some ("socks5".toList, rest)) :
    stripScheme t = rest ∧ cidrCandidate t = t := by
  rw [stripScheme_eq, cidrCandidate, stripPrefix_https, stripPrefix_http, stripPrefix_socks5, h]
  exact ⟨rfl, rfl⟩

end Urls

/-! ### What is stored is what was meant -/

theorem hostOf_block {s : List Char} {c : Cidr} (h : Cidr.fromStr s = some c) :
    hostOf s = addressText c.network ∧ parseIpv4 (hostOf s) = some c.network := by
  obtain ⟨haddr, -, -⟩ := Cidr.spec_of_fromStr h
  have htext := eq_addressText haddr
  obtain ⟨hne, hchars, -, hlast⟩ := addressText_chars c.network
  obtain ⟨front, back, ha, hfront, hback⟩ := exists_trim (s.takeWhile (· ≠ '/'))
  rw [htext] at ha
  have hcolon : ':' ∉ s.takeWhile (· ≠ '/') := by
    rw [ha, mem_append, mem_append]
    rintro (hmem | hmem | hmem)
    · exact absurd (hfront _ hmem) (by decide)
    · rcases hchars _ hmem with hdigit | hdot
      · exact absurd hdigit (by decide)
      · exact absurd hdot (by decide)
    · exact absurd (hback _ hmem) (by decide)
  have hdot : (s.takeWhile (· ≠ '/')).getLast? ≠ some '.' := by
    intro heq
    rw [ha, getLast?_append_of_ne_nil _ (append_ne_nil_of_left_ne_nil hne back)] at heq
    by_cases hnil : back = []
    · rw [hnil, append_nil] at heq
      exact absurd (hlast _ heq) (by decide)
    · rw [getLast?_append_of_ne_nil _ hnil] at heq
      exact absurd (hback _ (mem_of_mem_getLast? heq)) (by decide)
  have hhost : hostOf s = trim (s.takeWhile (· ≠ '/')) := by
    rw [hostOf, dropPort_of_notMem hcolon, trimEndDots_of_last hdot]
  rw [hhost]
  exact ⟨htext, haddr⟩

theorem ofHost_address {ip : UInt32} (h : parseIpv4 v = some ip) :
    Meaning.ofHost v = .address ip := by
  have hdigit : ∀ d ∈ v.head?, d.isDigit = true := by
    rw [eq_addressText h]
    exact (addressText_chars ip).2.2.1
  have hstar : v ≠ ['*'] := by
    rintro rfl
    exact absurd (hdigit '*' rfl) (by decide)
  have hwild : stripPrefix "*." v = none := stripPrefix_of_digit (c := '*') rfl (by decide) hdigit
  rw [Meaning.ofHost, if_neg hstar, hwild, h]

theorem covers_block_whole (ip : UInt32) (t : List Char) :
    (Meaning.block ip 32).Covers t ↔ (Meaning.address ip).Covers t := by
  rw [Meaning.Covers, Meaning.Covers]
  cases parseIpv4 t with
  | none => simp
  | some ip' => simp [UInt32.toNat_inj]

theorem fromStr_socks5 (rest : List Char) :
    Cidr.fromStr ("socks5".toList ++ ("://".toList ++ rest)) = none := by
  rw [Option.eq_none_iff_forall_ne_some, ← Cidr.fromStr_trim]
  intro c hc
  have hhead : trim ("socks5".toList ++ ("://".toList ++ rest)) =
      's' :: ("ocks5://".toList ++ rest).rdropWhile isWhitespace :=
    trim_append_cons (by decide) [] _
  obtain ⟨-, hdigit⟩ := Cidr.digit_of_fromStr hc (trimmed_trim _)
  rw [hhead] at hdigit
  exact absurd (hdigit 's' rfl) (by decide)

theorem ruleMatches_iff_covers {rule : List Char} (h : normalizeRule rule = some v)
    (hplain : Plain rule) (t : List Char) : ruleMatches t v = true ↔ (meaning rule).Covers t := by
  rw [Plain] at hplain
  rw [meaning]
  rcases normalizeRule_cases h with hcidr | ⟨hcidr, hv, hlooks⟩
  · obtain ⟨hslash, hv, htrim, c, hc⟩ := cidrRule_eq_some hcidr
    rw [ruleMatches_block hc htrim]
    rw [hv, Cidr.fromStr_trim] at hc
    cases hurl : splitUrl (asciiLower (trim rule)) with
    | none =>
        rw [(stripScheme_of_none hurl).2] at hc
        dsimp only
        rw [if_pos hslash, hc]
    | some u =>
        obtain ⟨name, rest⟩ := u
        rw [hurl] at hplain
        rcases hplain with rfl | ⟨hname, hwhole⟩
        · rw [(stripScheme_of_socks5 hurl).2, splitUrl_eq_some hurl, fromStr_socks5] at hc
          cases hc
        · rw [(stripScheme_of_web hurl hname).2] at hc
          dsimp only
          rw [ofHost_address (hostOf_block hc).2, hwhole c hc]
          exact covers_block_whole c.network t
  · rw [ruleMatches_host (hostText_of_looksLikeHost hlooks)]
    cases hurl : splitUrl (asciiLower (trim rule)) with
    | none =>
        have hnone : (if '/' ∈ asciiLower (trim rule) then
            Cidr.fromStr (asciiLower (trim rule)) else none) = none := by
          rw [cidrRule, (stripScheme_of_none hurl).2] at hcidr
          split_ifs at hcidr ⊢ with hslash hsome
          · exact Option.not_isSome_iff_eq_none.mp hsome
          · rfl
        dsimp only
        rw [hnone, hv, (stripScheme_of_none hurl).1]
    | some u =>
        obtain ⟨name, rest⟩ := u
        rw [hurl] at hplain
        have hstrip : stripScheme (asciiLower (trim rule)) = rest := by
          rcases hplain with rfl | ⟨hname, -⟩
          · exact (stripScheme_of_socks5 hurl).1
          · exact (stripScheme_of_web hurl hname).1
        rw [hv, hstrip]

section Texts

variable {host port : List Char}

theorem covers_ofHost {t : List Char} (hstar : host ≠ ['*']) (hwild : stripPrefix "*." host = none)
    (h : (Meaning.ofHost host).Covers t) : (Meaning.domain host).Covers t := by
  rw [Meaning.ofHost, if_neg hstar, hwild] at h
  dsimp only at h
  cases hip : parseIpv4 host with
  | some ip =>
      rw [hip] at h
      exact Or.inl ((eq_addressText h).trans (eq_addressText hip).symm)
  | none =>
      rw [hip] at h
      dsimp only at h
      split at h
      · exact h
      · exact Or.inl h

end Texts

/-! ### Accepted rules -/

theorem isBypassed_singleton {dest rule : List Char} (h : target dest ≠ []) :
    isBypassed [rule] dest = ruleMatches (target dest) rule := by
  rw [isBypassed, isEmpty_eq_false_iff.mpr h, any_cons, any_nil, Bool.or_false]
  rfl

namespace ConsumerSettings

variable {s : ConsumerSettings} {rule : List Char} {added : Bool}

theorem addBypass_eq_ok (h : (s.addBypass rule).1 = .ok added) :
    ∃ stored, normalizeRule rule = some stored ∧
      ∀ r, r ∈ (s.addBypass rule).2.bypass ↔ r ∈ s.bypass ∨ r = stored := by
  rw [addBypass] at h ⊢
  cases hstored : normalizeRule rule with
  | none =>
      rw [hstored] at h
      cases h
  | some stored =>
      rw [hstored] at h
      refine ⟨stored, rfl, fun r => ?_⟩
      dsimp only at h ⊢
      split_ifs at h ⊢ with hmem hfull
      · exact ⟨Or.inl, fun hr => hr.elim id fun heq => heq ▸ hmem⟩
      · rw [mem_append, mem_singleton]

theorem shouldBypass_addBypass (h : (s.addBypass rule).1 = .ok added) (hplain : Plain rule)
    {dest : List Char} (hdest : target dest ≠ []) :
    (s.addBypass rule).2.shouldBypass dest = true ↔
      s.shouldBypass dest = true ∨ (meaning rule).Covers (target dest) := by
  obtain ⟨stored, hstored, hmem⟩ := addBypass_eq_ok h
  have hany : ∀ rules, isBypassed rules dest = true ↔
      ∃ r ∈ rules, ruleMatches (target dest) r = true := by
    intro rules
    rw [isBypassed, isEmpty_eq_false_iff.mpr hdest]
    exact any_eq_true
  rw [shouldBypass, shouldBypass, hany, hany, ← ruleMatches_iff_covers hstored hplain]
  constructor
  · rintro ⟨r, hr, hmatch⟩
    rcases (hmem r).mp hr with hr | rfl
    · exact Or.inl ⟨r, hr, hmatch⟩
    · exact Or.inr hmatch
  · rintro (⟨r, hr, hmatch⟩ | hmatch)
    · exact ⟨r, (hmem r).mpr (Or.inl hr), hmatch⟩
    · exact ⟨stored, (hmem stored).mpr (Or.inr rfl), hmatch⟩

/-- An accepted rule is stored in a form that is stored as it is when it is entered again. If the
rule is plain, it bypasses exactly the destinations that it stands for; and a URL bypasses only its
host and what is under it, unless the host is a wildcard. -/
theorem addBypass_covers (h : (s.addBypass rule).1 = .ok added) :
    ∃ stored ∈ (s.addBypass rule).2.bypass,
      normalizeRule rule = some stored ∧ normalizeRule stored = some stored ∧
        (Plain rule → ∀ dest, target dest ≠ [] →
          (isBypassed [stored] dest = true ↔ (meaning rule).Covers (target dest)) ∧
          ((s.addBypass rule).2.shouldBypass dest = true ↔
            s.shouldBypass dest = true ∨ (meaning rule).Covers (target dest)) ∧
          ∀ name rest, splitUrl (asciiLower (trim rule)) = some (name, rest) →
            hostOf rest ≠ ['*'] → stripPrefix "*." (hostOf rest) = none →
            isBypassed [stored] dest = true →
            target dest = hostOf rest ∨ ('.' :: hostOf rest) <:+ target dest) := by
  obtain ⟨stored, hstored, hmem⟩ := addBypass_eq_ok h
  refine ⟨stored, (hmem stored).mpr (Or.inr rfl), hstored, normalizeRule_idempotent hstored, ?_⟩
  intro hplain dest hdest
  have hiff : isBypassed [stored] dest = true ↔ (meaning rule).Covers (target dest) := by
    rw [isBypassed_singleton hdest]
    exact ruleMatches_iff_covers hstored hplain (target dest)
  refine ⟨hiff, shouldBypass_addBypass h hplain hdest, ?_⟩
  intro name rest hurl hstar hwild hbypassed
  have hcovers := hiff.mp hbypassed
  rw [meaning, hurl] at hcovers
  exact covers_ofHost hstar hwild hcovers

theorem addBypass_covers_pasted :
    let s : ConsumerSettings := { bypass := [] }
    let rule := "https://WWW.Netflix.com:443/browse".toList
    ∃ stored ∈ (s.addBypass rule).2.bypass,
      normalizeRule rule = some stored ∧
        isBypassed [stored] "cdn.www.netflix.com.:8443".toList = true ∧
        isBypassed [stored] "netflix.com".toList = false := by
  intro s rule
  have hwww : normalizeRule rule = some "www.netflix.com".toList := by decide +kernel
  have haccepted : (s.addBypass rule).1 = .ok true := by
    rw [addBypass, hwww]
    rfl
  obtain ⟨stored, hmem, hstored, -, hcovers⟩ := addBypass_covers haccepted
  have hplain : Plain rule := by decide +kernel
  refine ⟨stored, hmem, hstored, ?_, ?_⟩
  · exact (hcovers hplain _ (by decide +kernel)).1.mpr (by decide +kernel)
  · have hnot := (hcovers hplain "netflix.com".toList (by decide +kernel)).1.not.mpr
      (by decide +kernel)
    exact Bool.eq_false_iff.mpr hnot

/-- A name without a dot is bypassed by itself, but what is under it is not. A URL that goes on with
the length of a block bypasses the block, a URL of another scheme bypasses the name of its scheme,
and one with a star for a host bypasses everything. -/
theorem not_covers_under :
    let bypassed (rule dest : String) : Option Bool :=
      (normalizeRule rule.toList).map fun stored => isBypassed [stored] dest.toList
    (Meaning.domain "localhost".toList).Covers (target "x.localhost".toList) ∧
      bypassed "localhost" "x.localhost" = some false ∧
      bypassed "https://10.0.0.0/8" "10.1.2.3" = some true ∧
      bypassed "socks5://10.0.0.0/8" "10.1.2.3" = some false ∧
      bypassed "wss://netflix.com/" "netflix.com" = some false ∧
      bypassed "wss://netflix.com/" "wss" = some true ∧
      bypassed "https://*/" "netflix.com" = some true := by
  decide +kernel

end ConsumerSettings

end Vantablack.Net
