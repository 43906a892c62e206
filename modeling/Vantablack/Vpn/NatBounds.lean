import Vantablack.Vpn.NatRewrite

/-!
The functions of the address translation of `net/vpn/netstack.rs` again, with every access to a byte
or a range and every addition of 32 bits that could stop the program: they do not, whatever the bytes,
and they compute what `NatTable` says. In a build that checks additions, the sum of more than
`131074` bytes can go over 32 bits.
-/

namespace Vantablack.Vpn

open Lib Layers

/-! ### Accesses; `none` is a panic -/

/-- The model of `&pkt[i..j]`. -/
def range? (pkt : Bytes) (i j : ℕ) : Option Bytes :=
  if i ≤ j ∧ j ≤ pkt.length then some ((pkt.drop i).take (j - i)) else none

/-- Bytes that are assigned one by one or copied to a range. -/
def assign? (pkt : Bytes) (i : ℕ) (bs : Bytes) : Option Bytes :=
  if i + bs.length ≤ pkt.length then some (overwrite pkt i bs) else none

/-- The model of `u16::from_be_bytes([pkt[i], pkt[i + 1]])`. -/
def u16At? (pkt : Bytes) (i : ℕ) : Option ℕ := do
  let hi ← pkt[i]?
  let lo ← pkt[i + 1]?
  return hi.toNat * 256 + lo.toNat

/-- The words only add up, so some addition goes over 32 bits exactly if the whole sum does. It wraps
in a build that does not check. -/
def internetChecksum? (checked : Bool) (buf : Bytes) : Option ℕ :=
  if checked = true ∧ 2 ^ 32 ≤ sumWords buf then none
  else some (2 ^ 16 - 1 - foldCarry (foldCarry (sumWords buf % 2 ^ 32)) % 2 ^ 16)

/-! ### The functions -/

def fixChecksums? (checked : Bool) (pkt : Bytes) (ihl : ℕ) (isTcp : Bool) : Option Bytes := do
  let pkt ← assign? pkt 10 [0, 0]
  let header ← range? pkt 0 ihl
  let sum ← internetChecksum? checked header
  let pkt ← assign? pkt 10 (toBeBytes 2 sum)
  if pkt.length < csumOff ihl isTcp + 2 then return pkt
  let pkt ← assign? pkt (csumOff ihl isTcp) [0, 0]
  let addresses ← range? pkt 12 20
  let proto ← pkt[9]?
  let payload ← range? pkt ihl pkt.length
  let sum ← internetChecksum? checked
    (addresses ++ [0, proto] ++ toBeBytes 2 (pkt.length - ihl) ++ payload)
  assign? pkt (csumOff ihl isTcp) (toBeBytes 2 sum)

def mssOption? (pkt : Bytes) (stop : ℕ) : ℕ → ℕ → Option (Option ℕ)
  | 0, _ => some none
  | fuel + 1, off =>
      if stop ≤ off + 1 then some none
      else do
        let kind ← pkt[off]?
        if kind = 0 then return none
        if kind = 1 then mssOption? pkt stop fuel (off + 1)
        else
          let len ← pkt[off + 1]?
          if len.toNat < 2 ∨ stop < off + len.toNat then return none
          if kind = 2 ∧ len.toNat = 4 then return some off
          mssOption? pkt stop fuel (off + len.toNat)

def clampMss? (checked : Bool) (pkt : Bytes) (ihl : ℕ) : Option Bytes := do
  if pkt.length < ihl + 20 then return pkt
  let proto ← pkt[9]?
  if proto ≠ 6 then return pkt
  let offset ← pkt[ihl + 12]?
  let doff := offset.toNat / 16 * 4
  if doff < 20 ∨ pkt.length < ihl + doff then return pkt
  match ← mssOption? pkt (ihl + doff) pkt.length (ihl + 20) with
  | some off =>
      let mss ← u16At? pkt (off + 2)
      if overlayMss < mss then
        let pkt ← assign? pkt (off + 2) (toBeBytes 2 overlayMss)
        fixChecksums? checked pkt ihl true
      else return pkt
  | none => return pkt

def rewriteIngress? (checked : Bool) (pkt : Bytes) (ihl : ℕ) (isTcp isSyn : Bool) (localPort : ℕ) :
    Option Bytes := do
  let out ← assign? pkt 12 natAddr.toList
  let out ← assign? out 16 netstackAddr.toList
  let out ← assign? out (ihl + 2) (toBeBytes 2 localPort)
  let out ← fixChecksums? checked out ihl isTcp
  if isSyn then clampMss? checked out ihl else return out

/-- The flags of the TCP header; a packet that ends before them has none. -/
def flags? (pkt : Bytes) (ihl : ℕ) : Option UInt8 :=
  if ihl + 13 < pkt.length then pkt[ihl + 13]? else some 0

def natIngress? (checked : Bool) (pkt : Bytes) (nextPort : ℕ) (nat : Table Tuple ℕ) :
    Option (Option (Ingress × ℕ × Table Tuple ℕ)) := do
  if pkt.length < 20 then return none
  let first ← pkt[0]?
  if first.toNat / 16 ≠ 4 then return none
  let ihl := first.toNat % 16 * 4
  if pkt.length < ihl + 4 then return none
  let proto ← pkt[9]?
  if proto ≠ 6 ∧ proto ≠ 17 then return none
  let src ← range? pkt 12 16
  let dst ← range? pkt 16 20
  let sport ← u16At? pkt ihl
  let dport ← u16At? pkt (ihl + 2)
  let tuple : Tuple :=
    { client := Block.zeroPadded 4 src, clientPort := sport, target := Block.zeroPadded 4 dst
      targetPort := dport }
  let flags ← flags? pkt ihl
  let isSyn : Bool := flags &&& 0x12 = 0x02 && flags &&& 0x10 = 0
  let ingress (localPort : ℕ) : Option Ingress := do
    let out ← rewriteIngress? checked pkt ihl (proto = 6) isSyn localPort
    return { packet := out, tuple := tuple, isSyn := isSyn, localPort := localPort }
  match nat.lookup tuple with
  | some l => return some (← ingress l, nextPort, nat)
  | none =>
      if isSyn then
        if localPortEnd ≤ nextPort then return none
        return some (← ingress nextPort, nextPort + 1, nat.insert tuple nextPort)
      else return none

def rewriteEgress? (checked : Bool) (pkt : Bytes) (ihl : ℕ) (isTcp : Bool) (tuple : Tuple) :
    Option Bytes := do
  let out ← assign? pkt 12 tuple.target.toList
  let out ← assign? out 16 tuple.client.toList
  let out ← assign? out ihl (toBeBytes 2 tuple.targetPort)
  let out ← assign? out (ihl + 2) (toBeBytes 2 tuple.clientPort)
  let out ← fixChecksums? checked out ihl isTcp
  clampMss? checked out ihl

def natEgress? (checked : Bool) (pkt : Bytes) (reverse : Table ℕ Tuple) : Option (Option Bytes) := do
  if pkt.length < 20 then return none
  let first ← pkt[0]?
  if first.toNat / 16 ≠ 4 then return none
  let ihl := first.toNat % 16 * 4
  if pkt.length < ihl + 4 then return none
  let proto ← pkt[9]?
  if proto ≠ 6 ∧ proto ≠ 17 then return none
  let localPort ← u16At? pkt ihl
  match reverse.lookup localPort with
  | none => return none
  | some tuple => return some (← rewriteEgress? checked pkt ihl (proto = 6) tuple)

/-! ### Accesses within the packet -/

section Accesses

variable {checked : Bool} {pkt bs : Bytes} {i j : ℕ}

theorem getElem?_eq_some_getD (h : i < pkt.length) : pkt[i]? = some (pkt.getD i 0) := by
  rw [List.getD_eq_getElem?_getD, List.getElem?_eq_getElem h, Option.getD_some]

theorem range?_eq (hij : i ≤ j) (h : j ≤ pkt.length) :
    range? pkt i j = some ((pkt.drop i).take (j - i)) := by
  rw [range?, if_pos ⟨hij, h⟩]

theorem assign?_eq (h : i + bs.length ≤ pkt.length) : assign? pkt i bs = some (overwrite pkt i bs) := by
  rw [assign?, if_pos h]

theorem u16At_eq_getD (h : i + 2 ≤ pkt.length) :
    u16At pkt i = (pkt.getD i 0).toNat * 256 + (pkt.getD (i + 1) 0).toNat := by
  have hslice : (pkt.drop i).take 2 = [pkt.getD i 0, pkt.getD (i + 1) 0] := by
    rw [List.drop_eq_getElem_cons (by omega), List.drop_eq_getElem_cons (by omega),
      List.take_succ_cons, List.take_succ_cons, List.take_zero, List.getD_eq_getElem?_getD,
      List.getD_eq_getElem?_getD, List.getElem?_eq_getElem (by omega),
      List.getElem?_eq_getElem (by omega), Option.getD_some, Option.getD_some]
  rw [u16At, hslice]
  simp [fromBeBytes]

theorem u16At?_eq (h : i + 2 ≤ pkt.length) : u16At? pkt i = some (u16At pkt i) := by
  rw [u16At?, getElem?_eq_some_getD (by omega), getElem?_eq_some_getD (by omega), u16At_eq_getD h]
  rfl

theorem internetChecksum?_spec (buf : Bytes) (h : checked = false ∨ buf.length ≤ 2 ^ 17 + 2) :
    ∃ sum, internetChecksum? checked buf = some sum ∧
      (buf.length ≤ 2 ^ 17 + 2 → sum = internetChecksum buf) := by
  have hbound := sumWords_le buf
  have hsum : buf.length ≤ 2 ^ 17 + 2 → sumWords buf < 2 ^ 32 := fun hlen => by omega
  rw [internetChecksum?, if_neg]
  · refine ⟨_, rfl, fun hlen => ?_⟩
    rw [Nat.mod_eq_of_lt (hsum hlen), internetChecksum]
  · rintro ⟨hchecked, hlarge⟩
    rcases h with hfree | hlen
    · rw [hfree] at hchecked
      cases hchecked
    · exact absurd (hsum hlen) (not_lt.mpr hlarge)

end Accesses

/-! ### The functions do not panic -/

/-- A computation that does not stop keeps the length of a packet, and has the given result if that
is within what 32 bits can add up. -/
def Keeps (pkt : Bytes) (run : Option Bytes) (result : Bytes) : Prop :=
  ∃ out, run = some out ∧ out.length = pkt.length ∧ (pkt.length ≤ 2 ^ 17 - 10 → out = result)

section Functions

variable {checked : Bool} {pkt : Bytes} {ihl : ℕ}

theorem keeps_assign? {bs : Bytes} {i : ℕ} (h : i + bs.length ≤ pkt.length) :
    Keeps pkt (assign? pkt i bs) (overwrite pkt i bs) :=
  ⟨_, assign?_eq h, length_overwrite _ _ _, fun _ => rfl⟩

theorem Keeps.bind {run : Option Bytes} {result : Bytes} {next : Bytes → Option Bytes}
    {nextResult : Bytes → Bytes} (hrun : Keeps pkt run result)
    (hnext : ∀ out, out.length = pkt.length → Keeps out (next out) (nextResult out)) :
    Keeps pkt (run >>= next) (nextResult result) := by
  obtain ⟨out, hout, hlen, hresult⟩ := hrun
  obtain ⟨out', hout', hlen', hresult'⟩ := hnext out hlen
  refine ⟨out', ?_, hlen'.trans hlen, fun hsmall => ?_⟩
  · rw [hout, Option.bind_eq_bind, Option.bind_some, hout']
  · rw [hresult' (by omega), hresult hsmall]

theorem checksum?_stored {out bytes : Bytes} {off : ℕ} (hoff : off + 2 ≤ out.length)
    (hbytes : checked = false ∨ bytes.length ≤ 2 ^ 17 + 2) :
    ∃ sum, internetChecksum? checked bytes = some sum ∧
      assign? out off (toBeBytes 2 sum) = some (overwrite out off (toBeBytes 2 sum)) ∧
      (bytes.length ≤ 2 ^ 17 + 2 → sum = internetChecksum bytes) := by
  obtain ⟨sum, hsum, heq⟩ := internetChecksum?_spec bytes hbytes
  exact ⟨sum, hsum, assign?_eq (by rw [length_toBeBytes]; omega), heq⟩

theorem keeps_fixChecksums? (hlong : 20 ≤ pkt.length) (hihl : ihl ≤ pkt.length)
    (hchecked : checked = false ∨ pkt.length ≤ 2 ^ 17 - 10) (isTcp : Bool) :
    Keeps pkt (fixChecksums? checked pkt ihl isTcp) (fixChecksums pkt ihl isTcp) := by
  set cleared := overwrite pkt 10 [0, 0] with hcleared
  have hlenCleared : cleared.length = pkt.length := length_overwrite pkt 10 [0, 0]
  have hassign : assign? pkt 10 [0, 0] = some cleared :=
    assign?_eq (show 10 + 2 ≤ pkt.length by omega)
  have hheader := range?_eq (Nat.zero_le ihl) (hihl.trans_eq hlenCleared.symm)
  have hheaderLen : ((cleared.drop 0).take (ihl - 0)).length ≤ ihl := by
    rw [List.length_take]
    omega
  obtain ⟨sum, hsum, hfill, hsumEq⟩ := checksum?_stored (show 10 + 2 ≤ cleared.length by omega)
    (hchecked.imp_right fun hlen => show ((cleared.drop 0).take (ihl - 0)).length ≤ _ by omega)
  set fixed := overwrite cleared 10 (toBeBytes 2 sum) with hfixed
  have hlenFixed : fixed.length = pkt.length := (length_overwrite _ _ _).trans hlenCleared
  have hfixedEq : pkt.length ≤ 2 ^ 17 - 10 → fixed = fixIpChecksum pkt ihl := by
    intro hlen
    rw [hfixed, hsumEq (by omega), hcleared]
    rfl
  unfold fixChecksums?
  simp only [hassign, hheader, hsum, hfill, Option.bind_eq_bind, Option.bind_some]
  split
  · rename_i hshort
    refine ⟨fixed, rfl, hlenFixed, fun hlen => ?_⟩
    rw [fixChecksums, ← hfixedEq hlen, if_pos hshort]
  · rename_i hwhole
    have hoff : ihl ≤ csumOff ihl isTcp := Nat.le_add_right _ _
    set zeroed := overwrite fixed (csumOff ihl isTcp) [0, 0] with hzeroed
    have hlenZeroed : zeroed.length = pkt.length := (length_overwrite _ _ _).trans hlenFixed
    have hzero : assign? fixed (csumOff ihl isTcp) [0, 0] = some zeroed :=
      assign?_eq (show csumOff ihl isTcp + 2 ≤ fixed.length by omega)
    have haddresses : range? zeroed 12 20 = some ((zeroed.drop 12).take 8) :=
      range?_eq (by norm_num) (by omega)
    have hproto : zeroed[9]? = some (zeroed.getD 9 0) := getElem?_eq_some_getD (by omega)
    have hpayload : range? zeroed ihl zeroed.length = some (zeroed.drop ihl) := by
      rw [range?_eq (by omega) le_rfl, List.take_of_length_le (by rw [List.length_drop])]
    have hlenPseudo : (pseudoPacket zeroed ihl).length = 12 + (zeroed.length - ihl) :=
      length_pseudoPacket (by omega)
    obtain ⟨total, htotal, hstore, htotalEq⟩ := checksum?_stored
      (show csumOff ihl isTcp + 2 ≤ zeroed.length by omega)
      (hchecked.imp_right fun hlen => show (pseudoPacket zeroed ihl).length ≤ _ by omega)
    refine ⟨overwrite zeroed (csumOff ihl isTcp) (toBeBytes 2 total), ?_, ?_, fun hlen => ?_⟩
    · simp only [hzero, haddresses, hproto, hpayload, Option.bind_some]
      rw [pseudoPacket] at htotal
      simp only [htotal, Option.bind_some, hstore]
    · rw [length_overwrite, hlenZeroed]
    · rw [htotalEq (by omega), fixChecksums]
      dsimp only
      rw [← hfixedEq hlen, if_neg hwhole]
      rfl

theorem mssOption?_eq {stop fuel off : ℕ} (hstop : stop ≤ pkt.length) :
    mssOption? pkt stop fuel off = some (mssOption pkt stop fuel off) := by
  induction fuel generalizing off with
  | zero => rfl
  | succ fuel ih =>
      rw [mssOption?, mssOption]
      split
      · rfl
      · rename_i hin
        rw [getElem?_eq_some_getD (by omega), getElem?_eq_some_getD (by omega)]
        simp only [Option.bind_eq_bind, Option.bind_some, Option.pure_def]
        split
        · rfl
        · split
          · exact ih
          · split
            · rfl
            · split
              · rfl
              · exact ih

theorem toNat_eq_iff {b : UInt8} {n : ℕ} (hn : n < 256) : b.toNat = n ↔ b = UInt8.ofNat n := by
  rw [← UInt8.toNat_inj, UInt8.toNat_ofNat_of_lt' hn]

theorem keeps_clampMss? (hlong : 20 ≤ pkt.length)
    (hchecked : checked = false ∨ pkt.length ≤ 2 ^ 17 - 10) :
    Keeps pkt (clampMss? checked pkt ihl) (clampMss pkt ihl) := by
  have hsame : Keeps pkt (some pkt) pkt := ⟨pkt, rfl, rfl, fun _ => rfl⟩
  have hproto : ipProto pkt ≠ 6 ↔ pkt.getD 9 0 ≠ 6 := not_congr (toNat_eq_iff (by norm_num))
  unfold clampMss? clampMss
  dsimp only
  simp only [hproto, Option.pure_def, Option.bind_eq_bind]
  by_cases hshort : pkt.length < ihl + 20
  · rw [if_pos hshort, if_pos (Or.inl hshort)]
    exact hsame
  · rw [if_neg hshort, getElem?_eq_some_getD (by omega), getElem?_eq_some_getD (by omega)]
    simp only [Option.bind_some]
    by_cases hother : pkt.getD 9 0 ≠ 6
    · rw [if_pos hother, if_pos (Or.inr hother)]
      exact hsame
    · rw [if_neg hother, if_neg (not_or.mpr ⟨hshort, hother⟩)]
      split
      · exact hsame
      · rename_i hheader
        rw [mssOption?_eq (by omega), Option.bind_some]
        cases hwalk : mssOption pkt (ihl + (pkt.getD (ihl + 12) 0).toNat / 16 * 4) pkt.length
            (ihl + 20) with
        | none => exact hsame
        | some off =>
            dsimp only
            have hoff : off + 4 ≤ pkt.length := by
              have hfirst : IsFirst (MssFrom pkt (ihl + (pkt.getD (ihl + 12) 0).toNat / 16 * 4) (ihl + 20))
                  (some off) := by
                rw [← hwalk]
                exact mssOption_spec (by omega)
              have hfits := hfirst.1.1.fits.2.2.2
              rw [hfirst.1.2.2] at hfits
              omega
            rw [u16At?_eq (by omega), Option.bind_some]
            split
            · rw [assign?_eq (by rw [length_toBeBytes]; omega), Option.bind_some]
              have hrun : Keeps (overwrite pkt (off + 2) (toBeBytes 2 overlayMss))
                  (fixChecksums? checked (overwrite pkt (off + 2) (toBeBytes 2 overlayMss)) ihl true)
                  (fixChecksums (overwrite pkt (off + 2) (toBeBytes 2 overlayMss)) ihl true) := by
                refine keeps_fixChecksums? ?_ ?_ ?_ true
                all_goals rw [length_overwrite]
                · exact hlong
                · omega
                · exact hchecked
              rwa [Keeps, length_overwrite] at hrun
            · exact hsame

end Functions

/-! ### The two directions -/

section Directions

variable {checked : Bool} {pkt : Bytes}

theorem keeps_rewriteEgress? (hlong : 20 ≤ pkt.length) (hports : ihl pkt + 4 ≤ pkt.length)
    (hchecked : checked = false ∨ pkt.length ≤ 2 ^ 17 - 10) (tuple : Tuple) :
    Keeps pkt (rewriteEgress? checked pkt (ihl pkt) (ipProto pkt = 6) tuple)
      (rewriteEgress pkt tuple) := by
  have haddrs (i : ℕ) (ip : Octets 4) (hi : i ≤ 16) : ∀ out : Bytes, out.length = pkt.length →
      i + ip.toList.length ≤ out.length := by
    intro out hout
    rw [ip.toList_length]
    omega
  have hport (i port : ℕ) (hi : i ≤ ihl pkt + 2) : ∀ out : Bytes, out.length = pkt.length →
      i + (toBeBytes 2 port).length ≤ out.length := by
    intro out hout
    rw [length_toBeBytes]
    omega
  have hlast : ∀ out : Bytes, out.length = pkt.length →
      Keeps out (fixChecksums? checked out (ihl pkt) (ipProto pkt = 6) >>= fun out =>
        clampMss? checked out (ihl pkt))
        (clampMss (fixChecksums out (ihl pkt) (ipProto pkt = 6)) (ihl pkt)) := by
    intro out hout
    refine (keeps_fixChecksums? ?_ ?_ ?_ _).bind fun e he => keeps_clampMss? ?_ ?_
    · omega
    · omega
    · exact hchecked.imp_right fun hlen => by omega
    · omega
    · exact hchecked.imp_right fun hlen => by omega
  have hkeeps := (keeps_assign? (haddrs 12 tuple.target (by omega) pkt rfl)).bind fun a ha =>
    (keeps_assign? (haddrs 16 tuple.client le_rfl a ha)).bind fun b hb =>
    (keeps_assign? (hport (ihl pkt) tuple.targetPort (by omega) b (by omega))).bind fun c hc =>
    (keeps_assign? (hport (ihl pkt + 2) tuple.clientPort le_rfl c (by omega))).bind fun d hd =>
    hlast d (by omega)
  exact hkeeps

theorem keeps_rewriteIngress? (hlong : 20 ≤ pkt.length) (hports : ihl pkt + 4 ≤ pkt.length)
    (hchecked : checked = false ∨ pkt.length ≤ 2 ^ 17 - 10) (localPort : ℕ) :
    Keeps pkt (rewriteIngress? checked pkt (ihl pkt) (ipProto pkt = 6) (isSyn pkt) localPort)
      (rewriteIngress pkt localPort) := by
  have hlast : ∀ d, d.length = pkt.length →
      Keeps d (if isSyn pkt = true then clampMss? checked d (ihl pkt) else some d)
        (if isSyn pkt = true then clampMss d (ihl pkt) else d) := by
    intro d hd
    split
    · exact keeps_clampMss? (by omega) (by rwa [hd])
    · exact ⟨d, rfl, rfl, fun _ => rfl⟩
  refine (keeps_assign? ?_).bind fun a ha => (keeps_assign? ?_).bind fun b hb =>
    (keeps_assign? ?_).bind fun c hc => (keeps_fixChecksums? ?_ ?_ ?_ _).bind fun d hd =>
    hlast d (by omega)
  · rw [List.Vector.toList_length]
    omega
  · rw [List.Vector.toList_length]
    omega
  · rw [length_toBeBytes]
    omega
  · omega
  · omega
  · exact hchecked.imp_right fun hlen => by omega

theorem headD_eq_getD (pkt : Bytes) : pkt.headD 0 = pkt.getD 0 0 := by
  cases pkt <;> rfl

theorem guarded {β : Type*} {next : UInt8 → UInt8 → Option (Option β)} {result : Option β}
    (hnext : 20 ≤ pkt.length → ihl pkt + 4 ≤ pkt.length →
      ∃ r, next (pkt.headD 0) (pkt.getD 9 0) = some r ∧ (pkt.length ≤ 2 ^ 17 - 10 → r = result)) :
    ∃ r, (if pkt.length < 20 then some none
        else pkt[0]?.bind fun first =>
          if first.toNat / 16 ≠ 4 then some none
          else if pkt.length < first.toNat % 16 * 4 + 4 then some none
          else pkt[9]?.bind fun proto =>
            if proto ≠ 6 ∧ proto ≠ 17 then some none else next first proto) = some r ∧
      (pkt.length ≤ 2 ^ 17 - 10 → r =
        if pkt.length < 20 ∨ ipVersion pkt ≠ 4 then none
        else if pkt.length < ihl pkt + 4 then none
        else if ipProto pkt ≠ 6 ∧ ipProto pkt ≠ 17 then none
        else result) := by
  have hproto : ipProto pkt ≠ 6 ∧ ipProto pkt ≠ 17 ↔ pkt.getD 9 0 ≠ 6 ∧ pkt.getD 9 0 ≠ 17 :=
    and_congr (not_congr (toNat_eq_iff (by norm_num))) (not_congr (toNat_eq_iff (by norm_num)))
  have hversion : (pkt.headD 0).toNat / 16 = ipVersion pkt := rfl
  have hihl : (pkt.headD 0).toNat % 16 * 4 = ihl pkt := rfl
  simp only [hproto]
  by_cases hlong : 20 ≤ pkt.length
  · rw [if_neg (not_lt.mpr hlong), getElem?_eq_some_getD (by omega), getElem?_eq_some_getD (by omega),
      Option.bind_some, Option.bind_some, ← headD_eq_getD, hversion, hihl]
    by_cases hfour : ipVersion pkt = 4
    · rw [if_neg (not_not.mpr hfour), if_neg (not_or.mpr ⟨not_lt.mpr hlong, not_not.mpr hfour⟩)]
      by_cases hports : ihl pkt + 4 ≤ pkt.length
      · rw [if_neg (not_lt.mpr hports), if_neg (not_lt.mpr hports)]
        split
        · exact ⟨none, rfl, fun _ => rfl⟩
        · exact hnext hlong hports
      · rw [if_pos (not_le.mp hports), if_pos (not_le.mp hports)]
        exact ⟨none, rfl, fun _ => rfl⟩
    · rw [if_pos hfour, if_pos (Or.inr hfour)]
      exact ⟨none, rfl, fun _ => rfl⟩
  · rw [if_pos (not_le.mp hlong), if_pos (Or.inl (not_le.mp hlong))]
    exact ⟨none, rfl, fun _ => rfl⟩

theorem natEgress?_spec (reverse : Table ℕ Tuple)
    (hchecked : checked = false ∨ pkt.length ≤ 2 ^ 17 - 10) :
    ∃ result, natEgress? checked pkt reverse = some result ∧
      (pkt.length ≤ 2 ^ 17 - 10 → result = natEgress pkt reverse) := by
  have htcp : decide (pkt.getD 9 0 = 6) = decide (ipProto pkt = 6) :=
    decide_eq_decide.mpr (toNat_eq_iff (by norm_num)).symm
  refine guarded fun hlong hports => ?_
  have hihl : (pkt.headD 0).toNat % 16 * 4 = ihl pkt := rfl
  rw [hihl, u16At?_eq (by omega), Option.bind_eq_bind, Option.bind_some, htcp]
  cases reverse.lookup (u16At pkt (ihl pkt)) with
  | none => exact ⟨none, rfl, fun _ => rfl⟩
  | some tuple =>
      obtain ⟨out, hout, -, heq⟩ := keeps_rewriteEgress? hlong hports hchecked tuple
      refine ⟨some out, ?_, fun hsmall => ?_⟩
      · dsimp only
        rw [hout]
        rfl
      · rw [heq hsmall, Option.map_some]

theorem flags?_eq (pkt : Bytes) : ∃ flags, flags? pkt (ihl pkt) = some flags ∧
    (decide (flags &&& 0x12 = 0x02) && decide (flags &&& 0x10 = 0)) = isSyn pkt := by
  unfold isSyn flags?
  by_cases hin : ihl pkt + 13 < pkt.length
  · exact ⟨pkt.getD (ihl pkt + 13) 0, by rw [if_pos hin, getElem?_eq_some_getD hin], by simp [hin]⟩
  · exact ⟨0, if_neg hin, by simp [hin]⟩

theorem natIngress?_spec (nextPort : ℕ) (nat : Table Tuple ℕ)
    (hchecked : checked = false ∨ pkt.length ≤ 2 ^ 17 - 10) :
    ∃ result, natIngress? checked pkt nextPort nat = some result ∧
      (pkt.length ≤ 2 ^ 17 - 10 → result = natIngress pkt nextPort nat) := by
  have htcp : decide (pkt.getD 9 0 = 6) = decide (ipProto pkt = 6) :=
    decide_eq_decide.mpr (toNat_eq_iff (by norm_num)).symm
  refine guarded fun hlong hports => ?_
  have hihl : (pkt.headD 0).toNat % 16 * 4 = ihl pkt := rfl
  have htuple : Tuple.mk (Block.zeroPadded 4 ((pkt.drop 12).take (16 - 12))) (u16At pkt (ihl pkt))
      (Block.zeroPadded 4 ((pkt.drop 16).take (20 - 16))) (u16At pkt (ihl pkt + 2)) = tupleOf pkt := rfl
  obtain ⟨flags, hflags, hsyn⟩ := flags?_eq pkt
  rw [hihl, range?_eq (by norm_num) (by omega), range?_eq (by norm_num) (by omega),
    u16At?_eq (by omega), u16At?_eq (by omega), hflags, htcp]
  simp only [Option.bind_eq_bind, Option.bind_some, Option.pure_def, hsyn]
  rw [htuple]
  have hrewrite := keeps_rewriteIngress? hlong hports hchecked
  cases nat.lookup (tupleOf pkt) with
  | some l =>
      obtain ⟨out, hout, -, heq⟩ := hrewrite l
      dsimp only
      refine ⟨_, by rw [hout]; rfl, fun hsmall => ?_⟩
      rw [heq hsmall]
  | none =>
      dsimp only
      split
      · split
        · exact ⟨none, rfl, fun _ => rfl⟩
        · obtain ⟨out, hout, -, heq⟩ := hrewrite nextPort
          refine ⟨_, by rw [hout]; rfl, fun hsmall => ?_⟩
          rw [heq hsmall]
      · exact ⟨none, rfl, fun _ => rfl⟩

end Directions

/-! ### A flow in both directions -/

/-- What holds of a packet to the stack and of one that comes back on its port. -/
structure RoundTrips (pkt reply : Bytes) (i : Ingress) (reverse : Table ℕ Tuple) : Prop where
  ingress : Rewritten pkt i.packet
  clamped : isSyn pkt = true → Clamped pkt i.packet
  egress : ∃ out, natEgress reply (reverse.insert i.localPort i.tuple) = some out ∧
    Rewritten reply out ∧ Clamped reply out ∧ Restored pkt out

theorem natIngress_packet {pkt : Bytes} {nextPort nextPort' : ℕ} {nat nat' : Table Tuple ℕ}
    {i : Ingress} (h : natIngress pkt nextPort nat = some (i, nextPort', nat')) :
    i.packet = rewriteIngress pkt i.localPort := by
  unfold natIngress at h
  dsimp only at h
  repeat' split at h
  all_goals first
    | cases h; rfl
    | cases h

theorem natEgress_eq {reply : Bytes} (hreply : IsTcpPacket reply) (reverse : Table ℕ Tuple) :
    natEgress reply reverse =
      (reverse.lookup (u16At reply (ihl reply))).map (rewriteEgress reply) := by
  have hheader := hreply.header
  have htcp := hreply.tcpHeader
  have hwhole := hreply.whole
  have hversion := hreply.version
  have hproto := hreply.proto
  rw [natEgress, if_neg (by omega), if_neg (by omega), if_neg (by omega)]

theorem natRewrites_total (checked : Bool) (bytes : Bytes) (nextPort : ℕ) (nat : Table Tuple ℕ)
    (reverse : Table ℕ Tuple) (hchecked : checked = false ∨ bytes.length ≤ 2 ^ 17 - 10) :
    natIngress? checked bytes nextPort nat ≠ none ∧ natEgress? checked bytes reverse ≠ none := by
  obtain ⟨r, hr, -⟩ := natIngress?_spec nextPort nat hchecked
  obtain ⟨r', hr', -⟩ := natEgress?_spec reverse hchecked
  rw [hr, hr']
  exact ⟨Option.some_ne_none r, Option.some_ne_none r'⟩

/-- The two directions do all that they should, and do not panic, exactly if no packet that is
clamped has a second MSS option above what the overlay takes. -/
theorem natRewrites_iff (pkt reply : Bytes) (nextPort nextPort' : ℕ) (nat nat' : Table Tuple ℕ)
    (i : Ingress) (reverse : Table ℕ Tuple) (hpkt : IsTcpPacket pkt) (hreply : IsTcpPacket reply)
    (hin : natIngress pkt nextPort nat = some (i, nextPort', nat'))
    (hport : u16At reply (ihl reply) = i.localPort) :
    RoundTrips pkt reply i reverse ∧
        (∀ (checked : Bool) (bytes : Bytes) (nextPort : ℕ) (nat : Table Tuple ℕ)
          (reverse : Table ℕ Tuple), checked = false ∨ bytes.length ≤ 2 ^ 17 - 10 →
          natIngress? checked bytes nextPort nat ≠ none ∧
            natEgress? checked bytes reverse ≠ none) ↔
      (isSyn pkt = true → OnlyFirstOversized pkt) ∧ OnlyFirstOversized reply := by
  rw [and_iff_left natRewrites_total]
  obtain ⟨hingress, hclampIngress⟩ := rewriteIngress_right hpkt i.localPort
  rw [← natIngress_packet hin] at hingress hclampIngress
  have hout : natEgress reply (reverse.insert i.localPort i.tuple) =
      some (rewriteEgress reply i.tuple) := by
    rw [natEgress_eq hreply, hport, AList.lookup_insert, Option.map_some]
  obtain ⟨hegress, hclampEgress⟩ := rewriteEgress_right hreply i.tuple
  constructor
  · rintro ⟨-, hclamped, out, hsome, -, hclamped', -⟩
    obtain rfl := Option.some.inj (hout.symm.trans hsome)
    exact ⟨fun hsyn => (hclampIngress hsyn).mp (hclamped hsyn), hclampEgress.mp hclamped'⟩
  · rintro ⟨honly, honly'⟩
    have htuple := (natIngress_spec hin).1
    have hrestored : Restored pkt (rewriteEgress reply i.tuple) := by
      rw [htuple]
      obtain ⟨hsource, hsourcePort, hdestination, hdestinationPort⟩ :=
        rewriteEgress_addresses hreply (tupleOf pkt) (u16At_lt _ _) (u16At_lt _ _)
      have hihl := ihl_rewriteEgress hreply (tupleOf pkt)
      exact ⟨hsource, by rw [hihl, hsourcePort]; rfl, hdestination,
        by rw [hihl, hdestinationPort]; rfl⟩
    exact ⟨hingress, fun hsyn => (hclampIngress hsyn).mpr (honly hsyn), _, hout, hegress,
      hclampEgress.mpr honly', hrestored⟩

theorem onlyFirstOversized_of_headerEnd {pkt : Bytes} (h : headerEnd pkt < ihl pkt + 28) :
    OnlyFirstOversized pkt := by
  intro off off' hoff hoff' hlt
  have hstart := hoff.1.start_le
  have hnext := hoff.1.add_length_le hoff'.1 hlt
  have hfits := hoff'.1.fits.2.2.2
  rw [hoff.2.2] at hnext
  rw [hoff'.2.2] at hfits
  omega

/-- A packet from `10.66.0.10:51000` to `192.168.1.50:445` that opens a flow with an MSS of 1460. -/
def synMss : Bytes :=
  [0x45, 0, 0, 44, 0, 0, 0, 0, 64, 6, 0, 0, 10, 66, 0, 10, 192, 168, 1, 50, 199, 56, 1, 189,
    0, 0, 0, 0, 0, 0, 0, 0, 0x60, 0x02, 255, 255, 0, 0, 0, 0, 2, 4, 5, 180]

/-- The answer of the stack to it. -/
def synAck : Bytes :=
  [0x45, 0, 0, 40, 0, 0, 0, 0, 64, 6, 0, 0, 10, 200, 0, 1, 10, 200, 0, 2, 78, 32, 199, 56,
    0, 0, 0, 0, 0, 0, 0, 0, 0x50, 0x12, 255, 255, 0, 0, 0, 0]

theorem synMss_roundTrips : RoundTrips synMss synAck
    { packet := rewriteIngress synMss 20000, tuple := tupleOf synMss, isSyn := true
      localPort := 20000 } ∅ :=
  ((natRewrites_iff synMss synAck 20000 20001 ∅ _ _ ∅
    ⟨by decide, by decide, by decide, by decide, by decide, by decide⟩
    ⟨by decide, by decide, by decide, by decide, by decide, by decide⟩ rfl (by decide)).mpr
    ⟨fun _ => onlyFirstOversized_of_headerEnd (by decide),
      onlyFirstOversized_of_headerEnd (by decide)⟩).1

/-- The same with the option twice. -/
def synTwice : Bytes :=
  [0x45, 0, 0, 48, 0, 0, 0, 0, 64, 6, 0, 0, 10, 66, 0, 10, 192, 168, 1, 50, 199, 56, 1, 189,
    0, 0, 0, 0, 0, 0, 0, 0, 0x70, 0x02, 255, 255, 0, 0, 0, 0, 2, 4, 5, 180, 2, 4, 5, 180]

/-- The second option goes to the stack as it came. -/
theorem synTwice_not_clamped : IsTcpPacket synTwice ∧ isSyn synTwice = true ∧
    ∃ i nextPort nat, natIngress synTwice 20000 ∅ = some (i, nextPort, nat) ∧
      ¬ Clamped synTwice i.packet := by
  have hpkt : IsTcpPacket synTwice :=
    ⟨by decide, by decide, by decide, by decide, by decide, by decide⟩
  have hsyn : isSyn synTwice = true := by decide
  have hfirst : IsMss synTwice 40 :=
    ⟨.here ⟨by decide, by decide, by decide, by decide⟩, by decide, by decide⟩
  have hsecond : IsMss synTwice 44 :=
    ⟨.next ⟨by decide, by decide, by decide, by decide⟩
      (.here ⟨by decide, by decide, by decide, by decide⟩), by decide, by decide⟩
  refine ⟨hpkt, hsyn, _, _, _, rfl, fun hclamped => ?_⟩
  have honly := ((rewriteIngress_right hpkt 20000).2 hsyn).mp hclamped
  exact absurd (honly 40 44 hfirst hsecond (by norm_num)) (by decide)

end Vantablack.Vpn
