import Vantablack.Net.Relay
import Vantablack.Session.Basic

/-!
What `handle_pkt` makes of the payload of a frame that opened. On the direct path the payload is
first compared with the magics of the control messages; what is left, and what the last hop of an
onion unwraps, is tunnel traffic: a CONNECT, its OK, a CLOSE, or data behind a stream id. All of it
is told apart by content.
-/

namespace Vantablack.Net

open Lib Layers Session

/-! ### Text -/

/-- `str::split_once`. -/
def splitOnce (c : Char) (s : List Char) : Option (List Char × List Char) :=
  if c ∈ s then some (s.takeWhile (· ≠ c), (s.dropWhile (· ≠ c)).tail) else none

/-- `str::rsplit_once`. -/
def rsplitOnce (c : Char) (s : List Char) : Option (List Char × List Char) :=
  (splitOnce c s.reverse).map fun (after, before) => (before.reverse, after.reverse)

/-- `str::strip_suffix` with a character. -/
def stripSuffix (c : Char) (s : List Char) : Option (List Char) :=
  if s.getLast? = some c then some s.dropLast else none

/-- `str::parse` of an unsigned integer below `bound`: digits, perhaps behind a plus sign. -/
def parseUnsigned (bound : ℕ) (s : List Char) : Option ℕ :=
  let digits := match s with
    | '+' :: rest => rest
    | _ => s
  if digits.isEmpty || !digits.all Char.isDigit then none
  else
    let n := digits.foldl (fun n c => 10 * n + (c.toNat - '0'.toNat)) 0
    if n < bound then some n else none

/-- Take off a field framed as `mark<field>!` if the text starts with the mark: the field and what
follows it. A mark without an end is an error. -/
def stripField (mark : String) (s : List Char) : Option (List Char × List Char) :=
  match mark.toList.isPrefixOf? s with
  | some rest => splitOnce '!' rest
  | none => some ([], s)

/-- Whether the payload looks like a `host:port` destination. -/
def looksLikeDest (p : Bytes) : Bool :=
  match stripField "STREAM!" (fromUtf8Lossy p).toList with
  | none => false
  | some (_, target) =>
      match stripField "EXITAUTH!" target with
      | none => false
      | some (_, target) =>
          match rsplitOnce ':' target with
          | some (h, port) => !h.isEmpty && (parseUnsigned (2 ^ 16) port).isSome
          | none => false

def markedNumber (mark : String) (p : Bytes) : Option UInt32 := do
  let rest ← mark.toList.isPrefixOf? (fromUtf8Lossy p).toList
  let number ← stripSuffix '!' rest
  (parseUnsigned (2 ^ 32) number).map UInt32.ofNat

/-- The stream a CONNECT is for; 0 if it does not say. -/
def connectStream (p : Bytes) : UInt32 :=
  match stripField "STREAM!" (fromUtf8Lossy p).toList with
  | some (number, _) => ((parseUnsigned (2 ^ 32) number).map UInt32.ofNat).getD 0
  | none => 0

/-! ### Control messages -/

def startsWith (p : Bytes) (magic : String) : Bool :=
  (utf8 magic).isPrefixOf p

/-- `relay::parse_blind_frame`: the target and the sealed region. -/
def parseBlindFrame (raw : Bytes) : Option (String × Bytes) :=
  if raw.length < 40 ∨ raw.take 4 ≠ utf8 "BLND" then none
  else if fromBeBytes ((raw.drop 4).take 4) ≠ 0 then none
  else
    (String.fromUTF8? ⟨(((raw.drop 8).take 32).takeWhile (· ≠ 0)).toArray⟩).map fun target =>
      (target, raw.drop 40)

inductive Handling where
  | cover
  | ratchet
  | quantumMix
  | pqAuth
  | bye
  | vpn
  | peerExchange
  | chat
  | blindRelay
  | onionRelay
  | connectOk (streamId : UInt32)
  | close (streamId : Option UInt32)
  | connect
  | tunnelData (streamId : UInt32) (data : Bytes)
  | channelData (streamId : UInt32) (data : Bytes)
  | dropped
  deriving DecidableEq

/-- What the handlers in front of the tunnel dispatch do. -/
def Handling.isControl : Handling → Bool
  | .cover | .ratchet | .quantumMix | .pqAuth | .bye | .vpn | .peerExchange | .chat | .blindRelay
  | .onionRelay => true
  | _ => false

/-- The handlers in front of the tunnel dispatch, in their order. `vpn` is a build feature. -/
def handleControl (vpn : Bool) (payload : Bytes) : Option Handling :=
  if startsWith payload "DUMMY!" then some .cover
  else if startsWith payload "GHOST_REKEY____!" || startsWith payload "GHOST_REKEY_RSP!" then
    some .ratchet
  else if startsWith payload "GHOST_QEL_MIX___" || startsWith payload "GHOST_QEL_MIX_OK" then
    some .quantumMix
  else if startsWith payload "PQ_AUTH_CHUNK:" || startsWith payload "PQ_AUTH_ACK__:" then
    some .pqAuth
  else if startsWith payload "GHOST_BYE_____" || startsWith payload "GVPN1GHOST_BYE_____" then
    some .bye
  else if vpn && startsWith payload "GVPN1" && 5 < payload.length then some .vpn
  else if startsWith payload "GHOST_PEX_____" then some .peerExchange
  else if startsWith payload "CHAT!" then some .chat
  else if (parseBlindFrame payload).isSome then some .blindRelay
  else if (parseRelayHeader payload).isSome then some .onionRelay
  else none

/-! ### Tunnel traffic -/

/-- The streams a node has open on a session. -/
structure Streams where
  role : SessionRole
  tunnelOpen : UInt32 → Bool
  channelOpen : UInt32 → Bool

def isOk (payload : Bytes) : Bool :=
  payload = utf8 "OK" || startsWith payload "OK!"

/-- The stream an OK is for; 0 if it does not say. -/
def okStream (payload : Bytes) : UInt32 :=
  (markedNumber "OK!" payload).getD 0

/-- The stream and the data of a payload that is neither OK nor CLOSE. -/
def streamData (payload : Bytes) : UInt32 × Bytes :=
  if 4 ≤ payload.length && !looksLikeDest payload then
    (UInt32.ofNat (fromBeBytes (payload.take 4)), payload.drop 4)
  else (0, payload)

def dispatchDirect (s : Streams) (ctr : ℕ) (payload : Bytes) : Handling :=
  if isOk payload then .connectOk (okStream payload)
  else if startsWith payload "CLOSE!" then .close (markedNumber "CLOSE!" payload)
  else
    let (streamId, innerData) := streamData payload
    if s.tunnelOpen streamId then .tunnelData streamId innerData
    else if s.role = .responder ∧ looksLikeDest payload then .connect
    else if 3 ≤ ctr ∧ s.channelOpen streamId then .channelData streamId innerData
    else .dropped

def dispatchRelayed (s : Streams) (payload : Bytes) : Handling :=
  if (s.role = .responder ∨ startsWith payload "STREAM!") ∧ looksLikeDest payload then .connect
  else if isOk payload then .connectOk (okStream payload)
  else if startsWith payload "CLOSE!" then .close (markedNumber "CLOSE!" payload)
  else
    let (streamId, innerData) := streamData payload
    if s.tunnelOpen streamId then .tunnelData streamId innerData
    else if s.channelOpen streamId then .channelData streamId innerData
    else .dropped

/-- How a payload comes in: in a frame of its session, with the counter of the frame, or through
relays. -/
inductive Path where
  | direct (vpn : Bool) (ctr : ℕ)
  | relayed

/-- What becomes of a payload on a session that passed the identity check. -/
def handlePayload (path : Path) (s : Streams) (payload : Bytes) : Handling :=
  match path with
  | .direct vpn ctr => (handleControl vpn payload).getD (dispatchDirect s ctr payload)
  | .relayed => dispatchRelayed s payload

/-! ### Data -/

/-- The payload goes to the receiver of a stream, as this data. -/
def IsData (h : Handling) (streamId : UInt32) (data : Bytes) : Prop :=
  h = .tunnelData streamId data ∨ h = .channelData streamId data

/-- The payload passes every test for something other than data. -/
def Unclaimed (path : Path) (payload : Bytes) : Prop :=
  (match path with
    | .direct vpn _ => handleControl vpn payload = none
    | .relayed => True) ∧
  startsWith payload "OK!" = false ∧ startsWith payload "CLOSE!" = false ∧
    looksLikeDest payload = false

instance (path : Path) (payload : Bytes) : Decidable (Unclaimed path payload) :=
  match path with
  | .direct vpn _ => inferInstanceAs (Decidable (handleControl vpn payload = none ∧ _))
  | .relayed => inferInstanceAs (Decidable (True ∧ _))

/-- A channel takes no data from the first three frames of a session. -/
def Accepts (path : Path) (s : Streams) (streamId : UInt32) : Prop :=
  match path with
  | .direct _ ctr => s.tunnelOpen streamId = true ∨ 3 ≤ ctr
  | .relayed => True

instance (path : Path) (s : Streams) (streamId : UInt32) : Decidable (Accepts path s streamId) :=
  match path with
  | .direct _ ctr => inferInstanceAs (Decidable (s.tunnelOpen streamId = true ∨ 3 ≤ ctr))
  | .relayed => inferInstanceAs (Decidable True)

theorem isControl_ite {c : Prop} [Decidable c] {a h : Handling} {rest : Option Handling}
    (ha : a.isControl = true) (hrest : rest = some h → h.isControl = true)
    (hite : (if c then some a else rest) = some h) : h.isControl = true := by
  by_cases hc : c
  · rw [if_pos hc] at hite
    cases hite
    exact ha
  · rw [if_neg hc] at hite
    exact hrest hite

variable {payload : Bytes}

theorem isControl_of_handleControl {vpn : Bool} {h : Handling}
    (hcontrol : handleControl vpn payload = some h) : h.isControl = true := by
  revert hcontrol
  unfold handleControl
  iterate 10
    refine isControl_ite rfl ?_
  rintro ⟨⟩

theorem not_isData_of_isControl {h : Handling} (hcontrol : h.isControl = true) (streamId : UInt32)
    (data : Bytes) : ¬ IsData h streamId data := by
  rintro (rfl | rfl) <;> cases hcontrol

theorem isOk_of_length (h : 4 ≤ payload.length) : isOk payload = startsWith payload "OK!" := by
  have hlong : payload ≠ utf8 "OK" := by
    rintro rfl
    exact absurd h (by decide +kernel)
  rw [isOk, decide_eq_false hlong, Bool.false_or]

theorem streamData_of_dest (h : looksLikeDest payload = true) :
    streamData payload = (0, payload) := by
  rw [streamData, h, Bool.not_true, Bool.and_false]
  rfl

variable {streamId : UInt32}

theorem streamData_eq {chunk : Bytes}
    (h : looksLikeDest (toBeBytes 4 streamId.toNat ++ chunk) = false) :
    streamData (toBeBytes 4 streamId.toNat ++ chunk) = (streamId, chunk) := by
  have hlen := length_toBeBytes 4 streamId.toNat
  have hlong : 4 ≤ (toBeBytes 4 streamId.toNat ++ chunk).length := by
    rw [List.length_append, hlen]
    omega
  have hid : fromBeBytes (toBeBytes 4 streamId.toNat) = streamId.toNat :=
    fromBeBytes_toBeBytes streamId.toNat_lt
  rw [streamData, h, decide_eq_true hlong, Bool.not_false, Bool.and_self, if_pos rfl,
    List.take_left' hlen, List.drop_left' hlen, hid, UInt32.ofNat_toNat]

theorem isData_of_unclaimed {path : Path} {s : Streams}
    (hopen : s.tunnelOpen streamId = true ∨ s.channelOpen streamId = true) {chunk : Bytes}
    (hclear : Unclaimed path (toBeBytes 4 streamId.toNat ++ chunk))
    (haccepts : Accepts path s streamId) :
    IsData (handlePayload path s (toBeBytes 4 streamId.toNat ++ chunk)) streamId chunk := by
  have hlong : 4 ≤ (toBeBytes 4 streamId.toNat ++ chunk).length := by
    rw [List.length_append, length_toBeBytes]
    omega
  obtain ⟨hcontrol, hok, hclose, hdest⟩ := hclear
  have hdata := streamData_eq hdest
  generalize toBeBytes 4 streamId.toNat ++ chunk = payload at *
  have hnotOk : isOk payload = false := (isOk_of_length hlong).trans hok
  cases path with
  | direct vpn ctr =>
      have hnone : handleControl vpn payload = none := hcontrol
      rw [handlePayload, hnone, Option.getD_none, dispatchDirect, hnotOk, hclose,
        if_neg Bool.false_ne_true, if_neg Bool.false_ne_true, hdata]
      dsimp only
      by_cases htunnel : s.tunnelOpen streamId = true
      · rw [if_pos htunnel]
        exact Or.inl rfl
      · have hchannel := hopen.resolve_left htunnel
        have hctr : 3 ≤ ctr := haccepts.resolve_left htunnel
        rw [if_neg htunnel, hdest, if_neg fun h => Bool.false_ne_true h.2, if_pos ⟨hctr, hchannel⟩]
        exact Or.inr rfl
  | relayed =>
      rw [show handlePayload .relayed s payload = dispatchRelayed s payload from rfl, dispatchRelayed,
        hdest, if_neg fun h => Bool.false_ne_true h.2, hnotOk, hclose, if_neg Bool.false_ne_true,
        if_neg Bool.false_ne_true, hdata]
      dsimp only
      by_cases htunnel : s.tunnelOpen streamId = true
      · rw [if_pos htunnel]
        exact Or.inl rfl
      · rw [if_neg htunnel, if_pos (hopen.resolve_left htunnel)]
        exact Or.inr rfl

/-! ### All that can become of a payload -/

theorem looksLikeDest_of_streamData (h : (streamData payload).1 ≠ 0) :
    looksLikeDest payload = false := by
  by_contra hdest
  rw [Bool.not_eq_false] at hdest
  rw [streamData_of_dest hdest] at h
  exact h rfl

theorem startsWith_of_isOk (h : isOk payload = false) : startsWith payload "OK!" = false := by
  rw [isOk, Bool.or_eq_false_iff] at h
  exact h.2

/-- What is handed to the receiver of a stream. -/
def ReachesStream (path : Path) (s : Streams) (payload : Bytes) : Prop :=
  ((streamData payload).1 ≠ 0 → Unclaimed path payload) ∧ Accepts path s (streamData payload).1 ∧
    ((s.tunnelOpen (streamData payload).1 = true ∧
        handlePayload path s payload =
          .tunnelData (streamData payload).1 (streamData payload).2) ∨
      (s.tunnelOpen (streamData payload).1 = false ∧ s.channelOpen (streamData payload).1 = true ∧
        handlePayload path s payload =
          .channelData (streamData payload).1 (streamData payload).2))

/-- What a payload can be taken for, and when. -/
inductive TakenFor (path : Path) (s : Streams) (payload : Bytes) : Handling → Prop
  | control {a : Handling} (hcontrol : a.isControl = true) : TakenFor path s payload a
  | connectOk (hok : isOk payload = true) : TakenFor path s payload (.connectOk (okStream payload))
  | close (streamId : Option UInt32) : TakenFor path s payload (.close streamId)
  | connect (hdest : looksLikeDest payload = true) : TakenFor path s payload .connect
  | data {a : Handling} (hreaches : ReachesStream path s payload) : TakenFor path s payload a
  | dropped : TakenFor path s payload .dropped

theorem takenFor_dispatchDirect (vpn : Bool) (ctr : ℕ) (s : Streams)
    (hcontrol : handleControl vpn payload = none) :
    TakenFor (.direct vpn ctr) s payload (dispatchDirect s ctr payload) := by
  have hhandle : handlePayload (.direct vpn ctr) s payload = dispatchDirect s ctr payload := by
    rw [handlePayload, hcontrol, Option.getD_none]
  by_cases hok : isOk payload = true
  · rw [dispatchDirect, if_pos hok]
    exact .connectOk hok
  rw [dispatchDirect, if_neg hok] at hhandle ⊢
  by_cases hclose : startsWith payload "CLOSE!" = true
  · rw [if_pos hclose]
    exact .close _
  rw [if_neg hclose] at hhandle ⊢
  dsimp only at hhandle ⊢
  have hunclaimed : (streamData payload).1 ≠ 0 → Unclaimed (.direct vpn ctr) payload := fun hid =>
    ⟨hcontrol, startsWith_of_isOk (Bool.eq_false_iff.mpr hok), Bool.eq_false_iff.mpr hclose,
      looksLikeDest_of_streamData hid⟩
  by_cases htunnel : s.tunnelOpen (streamData payload).1 = true
  · rw [if_pos htunnel] at hhandle
    exact .data ⟨hunclaimed, Or.inl htunnel, Or.inl ⟨htunnel, hhandle⟩⟩
  rw [if_neg htunnel] at hhandle ⊢
  by_cases hdest : s.role = .responder ∧ looksLikeDest payload = true
  · rw [if_pos hdest]
    exact .connect hdest.2
  rw [if_neg hdest] at hhandle ⊢
  by_cases hchannel : 3 ≤ ctr ∧ s.channelOpen (streamData payload).1 = true
  · rw [if_pos hchannel] at hhandle
    exact .data ⟨hunclaimed, Or.inr hchannel.1,
      Or.inr ⟨Bool.eq_false_iff.mpr htunnel, hchannel.2, hhandle⟩⟩
  · rw [if_neg hchannel]
    exact .dropped

theorem takenFor_dispatchRelayed (s : Streams) (payload : Bytes) :
    TakenFor .relayed s payload (dispatchRelayed s payload) := by
  have hhandle : handlePayload .relayed s payload = dispatchRelayed s payload := rfl
  by_cases hdest : (s.role = .responder ∨ startsWith payload "STREAM!" = true) ∧
      looksLikeDest payload = true
  · rw [dispatchRelayed, if_pos hdest]
    exact .connect hdest.2
  rw [dispatchRelayed, if_neg hdest] at hhandle ⊢
  by_cases hok : isOk payload = true
  · rw [if_pos hok]
    exact .connectOk hok
  rw [if_neg hok] at hhandle ⊢
  by_cases hclose : startsWith payload "CLOSE!" = true
  · rw [if_pos hclose]
    exact .close _
  rw [if_neg hclose] at hhandle ⊢
  dsimp only at hhandle ⊢
  have hunclaimed : (streamData payload).1 ≠ 0 → Unclaimed .relayed payload := fun hid =>
    ⟨trivial, startsWith_of_isOk (Bool.eq_false_iff.mpr hok), Bool.eq_false_iff.mpr hclose,
      looksLikeDest_of_streamData hid⟩
  by_cases htunnel : s.tunnelOpen (streamData payload).1 = true
  · rw [if_pos htunnel] at hhandle
    exact .data ⟨hunclaimed, trivial, Or.inl ⟨htunnel, hhandle⟩⟩
  rw [if_neg htunnel] at hhandle ⊢
  by_cases hchannel : s.channelOpen (streamData payload).1 = true
  · rw [if_pos hchannel] at hhandle
    exact .data ⟨hunclaimed, trivial,
      Or.inr ⟨Bool.eq_false_iff.mpr htunnel, hchannel, hhandle⟩⟩
  · rw [if_neg hchannel]
    exact .dropped

theorem takenFor_handlePayload (path : Path) (s : Streams) (payload : Bytes) :
    TakenFor path s payload (handlePayload path s payload) := by
  cases path with
  | direct vpn ctr =>
      cases hcontrol : handleControl vpn payload with
      | some h =>
          rw [handlePayload, hcontrol]
          exact .control (isControl_of_handleControl hcontrol)
      | none =>
          rw [handlePayload, hcontrol]
          exact takenFor_dispatchDirect vpn ctr s hcontrol
  | relayed => exact takenFor_dispatchRelayed s payload

theorem reachesStream_of_isData {path : Path} {s : Streams} {data : Bytes}
    (h : IsData (handlePayload path s payload) streamId data) :
    streamData payload = (streamId, data) ∧ ReachesStream path s payload := by
  have htaken := takenFor_handlePayload path s payload
  generalize ha : handlePayload path s payload = a at h htaken
  cases htaken with
  | control hcontrol => exact absurd h (not_isData_of_isControl hcontrol streamId data)
  | connectOk hok => rcases h with h | h <;> cases h
  | close id => rcases h with h | h <;> cases h
  | connect hdest => rcases h with h | h <;> cases h
  | dropped => rcases h with h | h <;> cases h
  | data hreaches =>
      refine ⟨?_, hreaches⟩
      obtain ⟨-, -, ⟨-, htunnel⟩ | ⟨-, -, hchannel⟩⟩ := hreaches
      · rw [← ha, htunnel] at h
        rcases h with h | h <;> cases h
        rfl
      · rw [← ha, hchannel] at h
        rcases h with h | h <;> cases h
        rfl

theorem unclaimed_of_isData {path : Path} {s : Streams} (hid : streamId ≠ 0) {data : Bytes}
    (h : IsData (handlePayload path s payload) streamId data) :
    Unclaimed path payload ∧ Accepts path s streamId := by
  obtain ⟨hdata, hclear, haccepts, -⟩ := reachesStream_of_isData h
  rw [hdata] at hclear haccepts
  exact ⟨hclear hid, haccepts⟩

/-- A chunk behind a nonzero stream id goes to the stream it is for exactly when its payload starts
like none of the other messages, does not look like a destination and, on the direct path to a
channel, comes in the fourth frame of the session or later. -/
theorem dispatched_as_data_iff (path : Path) (s : Streams) (streamId : UInt32) (hid : streamId ≠ 0)
    (hopen : s.tunnelOpen streamId = true ∨ s.channelOpen streamId = true) (chunk : Bytes) :
    IsData (handlePayload path s (toBeBytes 4 streamId.toNat ++ chunk)) streamId chunk ↔
      Unclaimed path (toBeBytes 4 streamId.toNat ++ chunk) ∧ Accepts path s streamId := by
  constructor
  · exact unclaimed_of_isData hid
  · rintro ⟨hclear, haccepts⟩
    exact isData_of_unclaimed hopen hclear haccepts

theorem startsWith_zero {magic : String} (h : (utf8 magic).head?.any (· ≠ 0) = true)
    (rest : Bytes) : startsWith (0 :: rest) magic = false := by
  rw [startsWith]
  cases hmagic : utf8 magic with
  | nil => simp [hmagic] at h
  | cons b l =>
      have hb : b ≠ 0 := by simpa [hmagic] using h
      simp [List.isPrefixOf, hb]

theorem handleControl_zero (vpn : Bool) (rest : Bytes) : handleControl vpn (0 :: rest) = none := by
  have hblind : parseBlindFrame (0 :: rest) = none := by
    have hmagic : (0 :: rest).take 4 ≠ utf8 "BLND" := by
      rw [show utf8 "BLND" = [66, 76, 78, 68] from by decide +kernel]
      simp
    rw [parseBlindFrame, if_pos (Or.inr hmagic)]
  have honion : parseRelayHeader (0 :: rest) = none := by
    have hmagic : (0 :: rest).take 4 ≠ relayMagic := by
      rw [show relayMagic = [82, 76, 89, 33] from by decide +kernel]
      simp
    rw [parseRelayHeader, if_pos (Or.inr hmagic)]
  simp (disch := decide +kernel) [handleControl, startsWith_zero, hblind, honion]

/-- Every test but that for a destination starts with a letter, so that for the stream ids in use it
is the only one. -/
theorem unclaimed_of_small_id (path : Path) {streamId : UInt32} (hsmall : streamId.toNat < 2 ^ 24)
    (chunk : Bytes) :
    Unclaimed path (toBeBytes 4 streamId.toNat ++ chunk) ↔
      looksLikeDest (toBeBytes 4 streamId.toNat ++ chunk) = false := by
  obtain ⟨rest, hrest⟩ : ∃ rest, toBeBytes 4 streamId.toNat ++ chunk = 0 :: rest := by
    have hzero : streamId.toNat / 256 / 256 / 256 = 0 := by omega
    refine ⟨toBeBytes 3 streamId.toNat ++ chunk, ?_⟩
    simp [toBeBytes, hzero]
  have hok : startsWith (0 :: rest) "OK!" = false := startsWith_zero (by decide +kernel) rest
  have hclose : startsWith (0 :: rest) "CLOSE!" = false := startsWith_zero (by decide +kernel) rest
  rw [hrest]
  unfold Unclaimed
  cases path with
  | direct vpn ctr => simp [handleControl_zero, hok, hclose]
  | relayed => simp [hok, hclose]

def firstStream : Streams where
  role := .responder
  tunnelOpen := (· = 1)
  channelOpen := fun _ => false

theorem unclaimed_greeting :
    Unclaimed (.direct false 5) (toBeBytes 4 (1 : UInt32).toNat ++ utf8 "GET /") :=
  (unclaimed_of_small_id (.direct false 5) (by decide) (utf8 "GET /")).mpr (by decide +kernel)

theorem dispatched_as_data_of_greeting :
    IsData (handlePayload (.direct false 5) firstStream (toBeBytes 4 1 ++ utf8 "GET /")) 1
      (utf8 "GET /") :=
  (dispatched_as_data_iff (.direct false 5) firstStream 1 (by decide) (Or.inl rfl)
    (utf8 "GET /")).mpr ⟨⟨by decide +kernel, by decide +kernel, by decide +kernel, by decide +kernel⟩,
      Or.inl rfl⟩

/-- A chunk that ends like a destination is a request for one, however long its stream is open. -/
theorem chunk_taken_for_dest :
    handlePayload (.direct false 5) firstStream (toBeBytes 4 1 ++ utf8 "Host: x:80") = .connect ∧
      ¬ IsData (handlePayload (.direct false 5) firstStream (toBeBytes 4 1 ++ utf8 "Host: x:80")) 1
        (utf8 "Host: x:80") := by
  constructor
  · decide +kernel
  · unfold IsData
    decide +kernel

end Vantablack.Net
