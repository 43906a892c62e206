import Vantablack.Lib.Numerals

/-!
The text of a socket address, as the standard library of Rust writes and parses it. The longest run
of zero groups of an IPv6 address is left out, and its last two groups are written as an IPv4 address
if it is a mapped one. The flow information of an address has no text.
-/

namespace Vantablack.Lib.Inet

open List

structure SocketAddrV4 where
  ip : Block UInt8 4
  port : UInt16
  deriving DecidableEq

structure SocketAddrV6 where
  segments : Block UInt16 8
  port : UInt16
  flowinfo : UInt32
  scopeId : UInt32
  deriving DecidableEq

inductive SocketAddr where
  | v4 (addr : SocketAddrV4)
  | v6 (addr : SocketAddrV6)
  deriving DecidableEq

/-! ### Writing -/

def dot : UInt8 := 46

def colon : UInt8 := 58

def percent : UInt8 := 37

def openBracket : UInt8 := 91

def closeBracket : UInt8 := 93

/-- What stands before a group: a separator, but for the first. -/
def lead (sep : UInt8) (first : Bool) : List UInt8 :=
  if first then [] else [sep]

/-- Numbers with a separator between them. -/
def groupsText (radix : ℕ) (sep : UInt8) (first : Bool) : List ℕ → List UInt8
  | [] => []
  | g :: gs => lead sep first ++ (numeral radix g ++ groupsText radix sep false gs)

def ipv4Text (octets : List ℕ) : List UInt8 :=
  groupsText 10 dot true octets

/-- A run of groups. -/
structure Span where
  start : ℕ
  len : ℕ

/-- The loop that looks for the longest run of zeros, from group `i` on. -/
def zeroSpanFrom (i : ℕ) (longest current : Span) : List ℕ → Span
  | [] => longest
  | segment :: rest =>
      if segment = 0 then
        let current : Span :=
          { start := if current.len = 0 then i else current.start, len := current.len + 1 }
        zeroSpanFrom (i + 1) (if longest.len < current.len then current else longest) current rest
      else zeroSpanFrom (i + 1) longest ⟨0, 0⟩ rest

def zeroSpan (segments : List ℕ) : Span :=
  zeroSpanFrom 0 ⟨0, 0⟩ ⟨0, 0⟩ segments

/-- `to_ipv4_mapped`, with the octets. -/
def toIpv4Mapped : List ℕ → Option (List ℕ)
  | [0, 0, 0, 0, 0, 0xffff, ab, cd] => some [ab / 256, ab % 256, cd / 256, cd % 256]
  | _ => none

def ipv6Text (segments : List ℕ) : List UInt8 :=
  match toIpv4Mapped segments with
  | some octets => colon :: colon :: (numeral 16 0xffff ++ colon :: ipv4Text octets)
  | none =>
      let zeroes := zeroSpan segments
      if 1 < zeroes.len then
        groupsText 16 colon true (segments.take zeroes.start) ++
          colon :: colon :: groupsText 16 colon true (segments.drop (zeroes.start + zeroes.len))
      else groupsText 16 colon true segments

namespace SocketAddr

/-- `to_string`. -/
def text : SocketAddr → List UInt8
  | .v4 a => ipv4Text (a.ip.toList.map UInt8.toNat) ++ colon :: numeral 10 a.port.toNat
  | .v6 a =>
      openBracket :: (ipv6Text (a.segments.toList.map UInt16.toNat) ++
        ((if a.scopeId = 0 then [] else percent :: numeral 10 a.scopeId.toNat) ++
          closeBracket :: colon :: numeral 10 a.port.toNat))

end SocketAddr

/-! ### Parsing -/

def readGivenChar (c : UInt8) : List UInt8 → Option (List UInt8)
  | b :: rest => if b = c then some rest else none
  | [] => none

/-- A separator is read before all but the first. -/
def readSeparator {α : Type*} (sep : UInt8) (first : Bool)
    (inner : List UInt8 → Option (α × List UInt8)) (s : List UInt8) : Option (α × List UInt8) :=
  if first then inner s else (readGivenChar sep s).bind inner

/-- The loop of `read_ipv4_addr`, with the number of groups to come. -/
def readOctets : ℕ → Bool → List UInt8 → Option (List ℕ × List UInt8)
  | 0, _, s => some ([], s)
  | n + 1, first, s => do
      let (octet, s) ← readSeparator dot first (readNumber 10 (some 3) false 255) s
      let (octets, s) ← readOctets n false s
      some (octet :: octets, s)

def readIpv4Addr : List UInt8 → Option (List ℕ × List UInt8) :=
  readOctets 4 true

/-- The loop of `read_groups`, with the room that is left: the groups, and whether they end with an
IPv4 address. -/
def readGroups : ℕ → Bool → List UInt8 → List ℕ × Bool × List UInt8
  | 0, _, s => ([], false, s)
  | room + 1, first, s =>
      -- an IPv4 address needs the room of two groups
      match if 0 < room then readSeparator colon first readIpv4Addr s else none with
      | some ([one, two, three, four], s) => ([one * 256 + two, three * 256 + four], true, s)
      | _ =>
          match readSeparator colon first (readNumber 16 (some 4) true 65535) s with
          | some (group, s) =>
              let (groups, ipv4, s) := readGroups room false s
              (group :: groups, ipv4, s)
          | none => ([], false, s)

def readIpv6Addr (s : List UInt8) : Option (List ℕ × List UInt8) :=
  let (head, headIpv4, s) := readGroups 8 true s
  if head.length = 8 then some (head, s)
  else if headIpv4 then none
  else do
    let s ← readGivenChar colon s
    let s ← readGivenChar colon s
    let (tail, _, s) := readGroups (8 - (head.length + 1)) true s
    some (head ++ replicate (8 - head.length - tail.length) 0 ++ tail, s)

def readPort (s : List UInt8) : Option (ℕ × List UInt8) :=
  (readGivenChar colon s).bind (readNumber 10 none true 65535)

def readScopeId (s : List UInt8) : Option (ℕ × List UInt8) :=
  (readGivenChar percent s).bind (readNumber 10 none true (2 ^ 32 - 1))

def readSocketAddrV4 (s : List UInt8) : Option (SocketAddrV4 × List UInt8) := do
  let (ip, s) ← readIpv4Addr s
  let (port, s) ← readPort s
  some ({ ip := .ofFn fun i => UInt8.ofNat (ip.getD i 0), port := UInt16.ofNat port }, s)

def readSocketAddrV6 (s : List UInt8) : Option (SocketAddrV6 × List UInt8) := do
  let s ← readGivenChar openBracket s
  let (ip, s) ← readIpv6Addr s
  -- without a scope the address has the scope 0
  let (scopeId, s) := (readScopeId s).getD (0, s)
  let s ← readGivenChar closeBracket s
  let (port, s) ← readPort s
  some
    ({ segments := .ofFn fun i => UInt16.ofNat (ip.getD i 0), port := UInt16.ofNat port
       flowinfo := 0, scopeId := UInt32.ofNat scopeId }, s)

namespace SocketAddr

/-- `parse`: nothing may be left over. -/
def parse (s : List UInt8) : Option SocketAddr :=
  let read :=
    match readSocketAddrV4 s with
    | some (a, s) => some (SocketAddr.v4 a, s)
    | none => (readSocketAddrV6 s).map fun (a, s) => (.v6 a, s)
  match read with
  | some (a, []) => some a
  | _ => none

end SocketAddr

/-! ### Reading what was written -/

variable {rest : List UInt8}

/-- A text that goes on with neither a digit nor a dot. -/
def Stops (s : List UInt8) : Prop :=
  NoDigit 16 s ∧ dot ∉ s.head?

theorem stops_of_head {b : UInt8} (hb : b = colon ∨ b = percent ∨ b = closeBracket)
    (s : List UInt8) : Stops (b :: s) := by
  rcases hb with rfl | rfl | rfl <;> exact ⟨noDigit_cons.mpr (by decide), by simp [dot]; decide⟩

@[simp] theorem readGivenChar_cons (c : UInt8) (s : List UInt8) :
    readGivenChar c (c :: s) = some s :=
  if_pos rfl

theorem readGivenChar_eq_none {c : UInt8} {s : List UInt8} (h : c ∉ s.head?) :
    readGivenChar c s = none := by
  cases s with
  | nil => rfl
  | cons b rest =>
      refine if_neg ?_
      rintro rfl
      exact h rfl

theorem readSeparator_lead {α : Type*} (sep : UInt8) (first : Bool)
    (inner : List UInt8 → Option (α × List UInt8)) (s : List UInt8) :
    readSeparator sep first inner (lead sep first ++ s) = inner s := by
  cases first with
  | true => rfl
  | false =>
      show (readGivenChar sep (sep :: s)).bind inner = inner s
      rw [readGivenChar_cons, Option.bind_some]

theorem readNumber_octet {octet : ℕ} (h : octet < 256) (hrest : NoDigit 10 rest) :
    readNumber 10 (some 3) false 255 (numeral 10 octet ++ rest) = some (octet, rest) :=
  readNumber_numeral (by decide) (by decide) (by rintro k ⟨⟩; omega) (by omega) false hrest

theorem readNumber_group {group : ℕ} (h : group < 65536) (hrest : NoDigit 16 rest) :
    readNumber 16 (some 4) true 65535 (numeral 16 group ++ rest) = some (group, rest) :=
  readNumber_numeral (by decide) (by decide) (by rintro k ⟨⟩; omega) (by omega) true hrest

theorem readNumber_decimal {n limit : ℕ} (h : n ≤ limit) (hrest : NoDigit 10 rest) :
    readNumber 10 none true limit (numeral 10 n ++ rest) = some (n, rest) :=
  readNumber_numeral (by decide) (by decide) (by rintro k ⟨⟩) h true hrest

theorem noDigit_groupsText {radix : ℕ} {sep : UInt8} (hsep : digitValue radix sep = none)
    (gs : List ℕ) (hrest : NoDigit radix rest) :
    NoDigit radix (groupsText radix sep false gs ++ rest) := by
  cases gs with
  | nil => exact hrest
  | cons g gs => exact noDigit_cons.mpr hsep

variable {octets : List ℕ}

theorem readOctets_groupsText (hoctets : ∀ o ∈ octets, o < 256) (hrest : NoDigit 10 rest)
    (first : Bool) :
    readOctets octets.length first (groupsText 10 dot first octets ++ rest) =
      some (octets, rest) := by
  induction octets generalizing first with
  | nil => rfl
  | cons o octets ih =>
      have ho := hoctets o mem_cons_self
      have hdot : digitValue 10 dot = none := by decide
      have hnumber := readNumber_octet ho (noDigit_groupsText hdot octets hrest)
      rw [groupsText, append_assoc, append_assoc, length_cons, readOctets,
        readSeparator_lead, hnumber]
      simp only [Option.bind_eq_bind, Option.bind_some]
      rw [ih fun o' ho' => hoctets o' (mem_cons_of_mem o ho'), Option.bind_some]

theorem eq_lead_of_readSeparator {α : Type*} {sep : UInt8} {first : Bool}
    {inner : List UInt8 → Option (α × List UInt8)} {s : List UInt8} {r : α × List UInt8}
    (h : readSeparator sep first inner s = some r) :
    ∃ s', s = lead sep first ++ s' ∧ inner s' = some r := by
  cases first with
  | true => exact ⟨s, rfl, h⟩
  | false =>
      obtain ⟨s', hs', hr⟩ := Option.bind_eq_some_iff.mp h
      cases s with
      | nil => cases hs'
      | cons b s =>
          rw [readGivenChar] at hs'
          split_ifs at hs' with hb
          cases hs'
          exact ⟨s', by rw [hb]; rfl, hr⟩

theorem eq_groupsText_of_readOctets {n : ℕ} {first : Bool} {s : List UInt8}
    (h : readOctets n first s = some (octets, rest)) :
    s = groupsText 10 dot first octets ++ rest ∧ octets.length = n ∧ ∀ o ∈ octets, o < 256 := by
  induction n generalizing first s octets with
  | zero =>
      cases h
      exact ⟨rfl, rfl, fun o ho => by cases ho⟩
  | succ n ih =>
      obtain ⟨⟨octet, s₁⟩, hoctet, h⟩ := Option.bind_eq_some_iff.mp h
      obtain ⟨⟨octets', s₂⟩, hoctets, h⟩ := Option.bind_eq_some_iff.mp h
      cases h
      obtain ⟨s', rfl, hnumber⟩ := eq_lead_of_readSeparator hoctet
      obtain ⟨rfl, hle⟩ := eq_numeral_of_readNumber (by decide) (by decide) hnumber
      obtain ⟨rfl, hlen, hall⟩ := ih hoctets
      refine ⟨?_, by rw [length_cons, hlen], forall_mem_cons.mpr ⟨by omega, hall⟩⟩
      rw [groupsText, append_assoc, append_assoc]

theorem readIpv4Addr_eq_none {w : List UInt8} (hw : dot ∉ w) (hrest : Stops rest) :
    readIpv4Addr (w ++ rest) = none := by
  have hhead := head_readDigits_ne hw (hrest.1.mono (by decide : 10 ≤ 16)) hrest.2
  rw [readIpv4Addr, readOctets, readSeparator, if_pos rfl]
  cases hnumber : readNumber 10 (some 3) false 255 (w ++ rest) with
  | none => rfl
  | some result =>
      obtain ⟨octet, s⟩ := result
      rw [← rest_of_readNumber hnumber] at hhead
      simp only [Option.bind_eq_bind, Option.bind_some]
      rw [readOctets, readSeparator, if_neg Bool.false_ne_true, readGivenChar_eq_none hhead]
      rfl

theorem dot_notMem_numeral (g : ℕ) : dot ∉ numeral 16 g := by
  intro hmem
  have hbounds := (mem_numeral (by decide) (by decide) hmem).1
  exact absurd hbounds (by decide)

theorem stops_groupsText (gs : List ℕ) (hrest : Stops rest) :
    Stops (groupsText 16 colon false gs ++ rest) := by
  cases gs with
  | nil => exact hrest
  | cons g gs => exact stops_of_head (Or.inl rfl) _

/-- What ends the groups: neither a group nor a separator and a group. -/
structure EndsGroups (s : List UInt8) : Prop where
  stops : Stops s
  afterColon : ∀ t, s = colon :: t → Stops t

theorem readSeparator_of_ends {α : Type*} {inner : List UInt8 → Option (α × List UInt8)}
    (hinner : ∀ s, Stops s → inner s = none) (h : EndsGroups rest) (first : Bool) :
    readSeparator colon first inner rest = none := by
  cases first with
  | true => exact hinner rest h.stops
  | false =>
      rw [readSeparator, if_neg Bool.false_ne_true]
      cases rest with
      | nil => rfl
      | cons b t =>
          by_cases hb : b = colon
          · subst hb
            rw [readGivenChar_cons, Option.bind_some]
            exact hinner t (h.afterColon t rfl)
          · rw [readGivenChar, if_neg hb, Option.bind_none]

theorem readGroups_groupsText {gs : List ℕ} (hgs : ∀ g ∈ gs, g < 65536) (room : ℕ)
    (hroom : gs.length ≤ room) (hrest : EndsGroups rest) (first : Bool) :
    readGroups room first (groupsText 16 colon first gs ++ rest) = (gs, false, rest) := by
  induction gs generalizing room first with
  | nil =>
      cases room with
      | zero => rfl
      | succ room =>
          have hipv4 : readSeparator colon first readIpv4Addr rest = none :=
            readSeparator_of_ends (fun s hs => readIpv4Addr_eq_none (w := []) (by simp) hs) hrest _
          have hgroup : readSeparator colon first (readNumber 16 (some 4) true 65535) rest = none :=
            readSeparator_of_ends (fun s hs => readNumber_of_noDigit _ _ _ hs.1) hrest _
          rw [groupsText, nil_append, readGroups, hipv4, ite_self, hgroup]
  | cons g gs ih =>
      obtain ⟨room, rfl⟩ : ∃ n, room = n + 1 := ⟨room - 1, by simp at hroom; omega⟩
      have hg := hgs g mem_cons_self
      have hstops := stops_groupsText gs hrest.stops
      have hipv4 : readSeparator colon first readIpv4Addr
          (groupsText 16 colon first (g :: gs) ++ rest) = none := by
        rw [groupsText, append_assoc, append_assoc, readSeparator_lead]
        exact readIpv4Addr_eq_none (dot_notMem_numeral g) hstops
      have hgroup : readSeparator colon first (readNumber 16 (some 4) true 65535)
          (groupsText 16 colon first (g :: gs) ++ rest) =
            some (g, groupsText 16 colon false gs ++ rest) := by
        rw [groupsText, append_assoc, append_assoc, readSeparator_lead]
        exact readNumber_group hg hstops.1
      have hothers := ih (fun g' hg' => hgs g' (mem_cons_of_mem g hg')) room
        (Nat.le_of_succ_le_succ hroom) false
      rw [readGroups, hipv4, ite_self, hgroup]
      dsimp only
      rw [hothers]

/-! ### Runs of zeros -/

/-- The run has a place among the groups, and they are zero there. -/
def Span.ZerosIn (z : Span) (segments : List ℕ) : Prop :=
  ∃ before after, segments = before ++ (replicate z.len 0 ++ after) ∧ before.length = z.start

/-- The run is at the end of the groups, or empty. -/
def Span.ZerosAtEnd (z : Span) (segments : List ℕ) : Prop :=
  z.len = 0 ∨ ∃ before, segments = before ++ replicate z.len 0 ∧ before.length = z.start

variable {segments : List ℕ}

theorem Span.ZerosIn.append {z : Span} (h : z.ZerosIn segments) (more : List ℕ) :
    z.ZerosIn (segments ++ more) := by
  obtain ⟨before, after, rfl, hstart⟩ := h
  exact ⟨before, after ++ more, by simp, hstart⟩

theorem Span.ZerosAtEnd.push {z : Span} (h : z.ZerosAtEnd segments) :
    ∃ before, segments ++ [0] = before ++ replicate (z.len + 1) 0 ∧
      before.length = if z.len = 0 then segments.length else z.start := by
  by_cases hlen : z.len = 0
  · refine ⟨segments, ?_, (if_pos hlen).symm⟩
    rw [hlen]
    rfl
  · obtain ⟨before, hsegments, hstart⟩ := h.resolve_left hlen
    refine ⟨before, ?_, by rw [if_neg hlen, hstart]⟩
    rw [hsegments, append_assoc, replicate_succ']

theorem zerosIn_zeroSpanFrom {longest current : Span} {seen : List ℕ} (segments : List ℕ)
    (hlongest : longest.ZerosIn seen) (hcurrent : current.ZerosAtEnd seen) :
    (zeroSpanFrom seen.length longest current segments).ZerosIn (seen ++ segments) := by
  induction segments generalizing seen longest current with
  | nil =>
      rw [append_nil]
      exact hlongest
  | cons segment segments ih =>
      have hlength : seen.length + 1 = (seen ++ [segment]).length := by simp
      have hsplit : seen ++ segment :: segments = seen ++ [segment] ++ segments := by simp
      rw [zeroSpanFrom, hlength, hsplit]
      dsimp only
      by_cases hzero : segment = 0
      · subst hzero
        obtain ⟨before, hseen, hstart⟩ := hcurrent.push
        have hgrown : Span.ZerosAtEnd
            ⟨if current.len = 0 then seen.length else current.start, current.len + 1⟩
            (seen ++ [0]) := Or.inr ⟨before, hseen, hstart⟩
        rw [if_pos rfl]
        refine ih ?_ hgrown
        split
        · exact ⟨before, [], by rw [append_nil, hseen], hstart⟩
        · exact hlongest.append [0]
      · have hnone : Span.ZerosAtEnd ⟨0, 0⟩ (seen ++ [segment]) := Or.inl rfl
        rw [if_neg hzero]
        exact ih (hlongest.append [segment]) hnone

theorem zerosIn_zeroSpan (segments : List ℕ) : (zeroSpan segments).ZerosIn segments := by
  have hempty : Span.ZerosIn ⟨0, 0⟩ [] := ⟨[], [], rfl, rfl⟩
  exact zerosIn_zeroSpanFrom segments hempty (Or.inl rfl)

/-! ### IPv6 addresses -/

theorem endsGroups_of_head {b : UInt8} (hb : b = percent ∨ b = closeBracket) (s : List UInt8) :
    EndsGroups (b :: s) := by
  refine ⟨stops_of_head (Or.inr hb) s, ?_⟩
  rintro t ht
  obtain ⟨rfl, -⟩ := List.cons.inj ht
  rcases hb with hb | hb <;> exact absurd hb (by decide)

theorem endsGroups_colons (s : List UInt8) : EndsGroups (colon :: colon :: s) := by
  refine ⟨stops_of_head (Or.inl rfl) _, ?_⟩
  rintro t ht
  obtain ⟨-, rfl⟩ := List.cons.inj ht
  exact stops_of_head (Or.inl rfl) s

theorem readIpv6Addr_compressed {before after : List ℕ} (zeros : ℕ)
    (hlen : before.length + zeros + after.length = 8) (hzeros : 0 < zeros)
    (hbefore : ∀ g ∈ before, g < 65536) (hafter : ∀ g ∈ after, g < 65536)
    (hrest : EndsGroups rest) :
    readIpv6Addr (groupsText 16 colon true before ++
      (colon :: colon :: (groupsText 16 colon true after ++ rest))) =
        some (before ++ replicate zeros 0 ++ after, rest) := by
  have hhead := readGroups_groupsText hbefore 8 (by omega)
    (endsGroups_colons (groupsText 16 colon true after ++ rest)) true
  have htail := readGroups_groupsText hafter (8 - (before.length + 1)) (by omega) hrest true
  have hgap : 8 - before.length - after.length = zeros := by omega
  rw [readIpv6Addr, hhead]
  dsimp only
  rw [if_neg (by omega), if_neg Bool.false_ne_true, readGivenChar_cons]
  simp only [Option.bind_eq_bind, Option.bind_some, readGivenChar_cons]
  rw [htail]
  dsimp only
  rw [hgap]

theorem toIpv4Mapped_eq_some (h : toIpv4Mapped segments = some octets) :
    ∃ ab cd, segments = [0, 0, 0, 0, 0, 0xffff, ab, cd] ∧
      octets = [ab / 256, ab % 256, cd / 256, cd % 256] := by
  unfold toIpv4Mapped at h
  split at h
  · rename_i ab cd
    exact ⟨ab, cd, rfl, (Option.some.inj h).symm⟩
  · cases h

theorem readIpv6Addr_mapped {ab cd : ℕ} (hab : ab < 65536) (hcd : cd < 65536)
    (hrest : EndsGroups rest) :
    readIpv6Addr (colon :: colon :: (numeral 16 0xffff ++
      colon :: (ipv4Text [ab / 256, ab % 256, cd / 256, cd % 256] ++ rest))) =
        some ([0, 0, 0, 0, 0, 0xffff, ab, cd], rest) := by
  have hhead := readGroups_groupsText (forall_mem_nil (· < 65536)) 8 (by simp)
    (endsGroups_colons (numeral 16 0xffff ++
      colon :: (ipv4Text [ab / 256, ab % 256, cd / 256, cd % 256] ++ rest))) true
  have hoctets : ∀ o ∈ [ab / 256, ab % 256, cd / 256, cd % 256], o < 256 := by
    simp
    omega
  have hipv4 : readSeparator colon false readIpv4Addr
      (colon :: (ipv4Text [ab / 256, ab % 256, cd / 256, cd % 256] ++ rest)) =
        some ([ab / 256, ab % 256, cd / 256, cd % 256], rest) :=
    (readSeparator_lead colon false _ _).trans
      (readOctets_groupsText hoctets (hrest.stops.1.mono (by decide)) true)
  have hcolon : Stops (colon :: (ipv4Text [ab / 256, ab % 256, cd / 256, cd % 256] ++ rest)) :=
    stops_of_head (Or.inl rfl) _
  have hfirst := readIpv4Addr_eq_none (dot_notMem_numeral 0xffff) hcolon
  have hgroup := readNumber_group (by decide : 0xffff < 65536) hcolon.1
  -- the group `ffff` is not an IPv4 address, what follows it is one
  have htail : readGroups 7 true (numeral 16 0xffff ++
      colon :: (ipv4Text [ab / 256, ab % 256, cd / 256, cd % 256] ++ rest)) =
        ([0xffff, ab, cd], true, rest) := by
    rw [readGroups, if_pos (by decide), readSeparator, if_pos rfl, hfirst]
    simp only [readSeparator, if_true, hgroup]
    rw [readGroups, if_pos (by decide), hipv4]
    simp only [Nat.div_add_mod']
  rw [groupsText, nil_append] at hhead
  rw [readIpv6Addr, hhead]
  dsimp only
  rw [if_neg (by decide), if_neg Bool.false_ne_true, readGivenChar_cons]
  simp only [Option.bind_eq_bind, Option.bind_some, readGivenChar_cons]
  rw [show 8 - (([] : List ℕ).length + 1) = 7 from rfl, htail]
  rfl

theorem readIpv6Addr_ipv6Text (hlen : segments.length = 8) (hsegments : ∀ g ∈ segments, g < 65536)
    (hrest : EndsGroups rest) :
    readIpv6Addr (ipv6Text segments ++ rest) = some (segments, rest) := by
  unfold ipv6Text
  cases hmapped : toIpv4Mapped segments with
  | some octets =>
      obtain ⟨ab, cd, rfl, rfl⟩ := toIpv4Mapped_eq_some hmapped
      have hread := readIpv6Addr_mapped (hsegments ab (by simp)) (hsegments cd (by simp)) hrest
      simpa using hread
  | none =>
      dsimp only
      split
      · rename_i hlong
        obtain ⟨before, after, hzeros, hstart⟩ := zerosIn_zeroSpan segments
        generalize zeroSpan segments = z at hlong hzeros hstart
        have hbefore : segments.take z.start = before := by
          rw [hzeros, ← hstart, take_left]
        have hafter : segments.drop (z.start + z.len) = after := by
          rw [hzeros, ← drop_drop, ← hstart, drop_left,
            drop_left' (length_replicate ..)]
        have htotal := congrArg length hzeros
        rw [hlen, length_append, length_append, length_replicate] at htotal
        have hfirst : ∀ g ∈ before, g < 65536 := fun g hg => hsegments g (by rw [hzeros]; simp [hg])
        have hlast : ∀ g ∈ after, g < 65536 := fun g hg => hsegments g (by rw [hzeros]; simp [hg])
        have hread := readIpv6Addr_compressed z.len (by omega) (by omega) hfirst hlast hrest
        rw [hbefore, hafter, append_assoc, cons_append, cons_append, hread,
          append_assoc, ← hzeros]
      · have hall := readGroups_groupsText hsegments 8 hlen.le hrest true
        rw [readIpv6Addr, hall]
        exact if_pos hlen

/-! ### Socket addresses -/

theorem readPort_text (port : UInt16) :
    readPort (colon :: numeral 10 port.toNat) = some (port.toNat, []) := by
  have hport := port.toNat_lt
  have hread := readNumber_decimal (by omega : port.toNat ≤ 65535) noDigit_nil
  rw [append_nil] at hread
  rw [readPort, readGivenChar_cons, Option.bind_some, hread]

theorem readScopeId_text (scopeId : UInt32) (s : List UInt8) :
    (readScopeId ((if scopeId = 0 then [] else percent :: numeral 10 scopeId.toNat) ++
      closeBracket :: s)).getD (0, (if scopeId = 0 then [] else percent :: numeral 10 scopeId.toNat) ++
        closeBracket :: s) = (scopeId.toNat, closeBracket :: s) := by
  by_cases hscope : scopeId = 0
  · subst hscope
    rfl
  · have hlt := scopeId.toNat_lt
    have hstops : Stops (closeBracket :: s) := stops_of_head (Or.inr (Or.inr rfl)) s
    have hread := readNumber_decimal (by omega : scopeId.toNat ≤ 2 ^ 32 - 1)
      (hstops.1.mono (by decide : 10 ≤ 16))
    rw [if_neg hscope, cons_append, readScopeId, readGivenChar_cons, Option.bind_some, hread]
    rfl

theorem ofFn_groups {α : Type*} {n : ℕ} {toNat : α → ℕ} {ofNat : ℕ → α}
    (h : ∀ a, ofNat (toNat a) = a) (v : Block α n) :
    (List.Vector.ofFn fun i : Fin n => ofNat ((v.toList.map toNat).getD i 0)) = v := by
  ext i
  have hi : i.1 < (v.toList.map toNat).length := by simp
  rw [List.Vector.get_ofFn, getD_eq_getElem?_getD, getElem?_eq_getElem hi,
    Option.getD_some, getElem_map, h, List.Vector.get_eq_get_toList]
  rfl

theorem readSocketAddrV4_text (a : SocketAddrV4) :
    readSocketAddrV4 (SocketAddr.v4 a).text = some (a, []) := by
  have hoctets : ∀ o ∈ a.ip.toList.map UInt8.toNat, o < 256 := by
    intro o ho
    obtain ⟨b, -, rfl⟩ := mem_map.mp ho
    exact b.toNat_lt
  have hstops : Stops (colon :: numeral 10 a.port.toNat) := stops_of_head (Or.inl rfl) _
  have hip := readOctets_groupsText hoctets (hstops.1.mono (by decide : 10 ≤ 16)) true
  rw [length_map, List.Vector.toList_length] at hip
  rw [readSocketAddrV4, SocketAddr.text, readIpv4Addr, ipv4Text, hip]
  simp only [Option.bind_eq_bind, Option.bind_some]
  rw [readPort_text, Option.bind_some, ofFn_groups @UInt8.ofNat_toNat,
    UInt16.ofNat_toNat]

theorem readSocketAddrV6_text (a : SocketAddrV6) :
    readSocketAddrV6 (SocketAddr.v6 a).text = some ({ a with flowinfo := 0 }, []) := by
  have hgroups : ∀ g ∈ a.segments.toList.map UInt16.toNat, g < 65536 := by
    intro g hg
    obtain ⟨w, -, rfl⟩ := mem_map.mp hg
    exact w.toNat_lt
  have hends : EndsGroups ((if a.scopeId = 0 then [] else percent :: numeral 10 a.scopeId.toNat) ++
      closeBracket :: colon :: numeral 10 a.port.toNat) := by
    split
    · exact endsGroups_of_head (Or.inr rfl) _
    · exact endsGroups_of_head (Or.inl rfl) _
  have hip := readIpv6Addr_ipv6Text (by simp) hgroups hends
  rw [readSocketAddrV6, SocketAddr.text, readGivenChar_cons]
  simp only [Option.bind_eq_bind, Option.bind_some]
  rw [hip, Option.bind_some, readScopeId_text]
  simp only [readGivenChar_cons, Option.bind_some]
  rw [readPort_text, Option.bind_some, ofFn_groups @UInt16.ofNat_toNat,
    UInt16.ofNat_toNat, UInt32.ofNat_toNat]

namespace SocketAddr

def flowinfo : SocketAddr → UInt32
  | .v4 _ => 0
  | .v6 a => a.flowinfo

/-- An address without its flow information. -/
def plain : SocketAddr → SocketAddr
  | .v4 a => .v4 a
  | .v6 a => .v6 { a with flowinfo := 0 }

theorem parse_text (a : SocketAddr) : parse a.text = some a.plain := by
  cases a with
  | v4 a => rw [parse, readSocketAddrV4_text]; rfl
  | v6 a =>
      have hv4 : readSocketAddrV4 (SocketAddr.v6 a).text = none := by
        have hno : readIpv4Addr (SocketAddr.v6 a).text = none := by
          rw [readIpv4Addr, readOctets, readSeparator, if_pos rfl, text,
            readNumber_of_noDigit _ _ _ (noDigit_cons.mpr (by decide))]
          rfl
        rw [readSocketAddrV4, hno]
        rfl
      rw [parse, hv4, readSocketAddrV6_text]
      rfl

theorem plain_eq_iff (a : SocketAddr) : a.plain = a ↔ a.flowinfo = 0 := by
  cases a with
  | v4 a => exact iff_of_true rfl rfl
  | v6 a =>
      rw [plain, v6.injEq]
      constructor
      · intro h
        rw [flowinfo, ← h]
      · intro h
        obtain ⟨segments, port, flow, scopeId⟩ := a
        obtain rfl : flow = 0 := h
        rfl

end SocketAddr

/-! ### Bytes of the text -/

/-- ASCII, without a zero. -/
def Ascii (s : List UInt8) : Prop :=
  ∀ b ∈ s, 0 < b.toNat ∧ b.toNat < 128

@[simp] theorem ascii_nil : Ascii [] := by
  simp [Ascii]

@[simp] theorem ascii_cons {b : UInt8} {s : List UInt8} :
    Ascii (b :: s) ↔ (0 < b.toNat ∧ b.toNat < 128) ∧ Ascii s := by
  simp [Ascii]

@[simp] theorem ascii_append {s t : List UInt8} : Ascii (s ++ t) ↔ Ascii s ∧ Ascii t :=
  forall_mem_append

@[simp] theorem ascii_numeral_ten (n : ℕ) : Ascii (numeral 10 n) := by
  intro b hb
  have hbounds := mem_numeral (by decide) (by decide) hb
  omega

@[simp] theorem ascii_numeral_sixteen (n : ℕ) : Ascii (numeral 16 n) := by
  intro b hb
  have hbounds := mem_numeral (by decide) (by decide) hb
  omega

theorem ascii_groupsText {radix : ℕ} {sep : UInt8} (hsep : 0 < sep.toNat ∧ sep.toNat < 128)
    (hnumeral : ∀ n, Ascii (numeral radix n)) (first : Bool) (gs : List ℕ) :
    Ascii (groupsText radix sep first gs) := by
  induction gs generalizing first with
  | nil => exact ascii_nil
  | cons g gs ih =>
      have hlead : Ascii (lead sep first) := by
        cases first with
        | true => exact ascii_nil
        | false => exact ascii_cons.mpr ⟨hsep, ascii_nil⟩
      exact ascii_append.mpr ⟨hlead, ascii_append.mpr ⟨hnumeral g, ih false⟩⟩

@[simp] theorem ascii_ipv4Text (octets : List ℕ) : Ascii (ipv4Text octets) :=
  ascii_groupsText (by decide) ascii_numeral_ten true octets

@[simp] theorem ascii_ipv6Text (segments : List ℕ) : Ascii (ipv6Text segments) := by
  have hcolon : 0 < colon.toNat ∧ colon.toNat < 128 := by decide
  have hgroups := ascii_groupsText hcolon ascii_numeral_sixteen true
  unfold ipv6Text
  split
  · simp [colon]
  · dsimp only
    split
    · rw [ascii_append, ascii_cons, ascii_cons]
      exact ⟨hgroups _, hcolon, hcolon, hgroups _⟩
    · exact hgroups segments

theorem SocketAddr.ascii_text (a : SocketAddr) : Ascii a.text := by
  cases a with
  | v4 a => simp [text, colon]
  | v6 a =>
      rw [text]
      split <;> simp [openBracket, closeBracket, colon, percent]

end Vantablack.Lib.Inet
