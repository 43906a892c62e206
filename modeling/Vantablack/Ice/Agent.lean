import Vantablack.Net.StunIntegrity

/-!
The ICE agent of `net/ice.rs`: candidates, the check list, and the checks it builds and
processes. Random transaction IDs and instants are arguments. Lengths of time and instants are
natural numbers.
-/

namespace Vantablack.Ice

open Lib Layers Receive Net Stun

/-- Bound on the checks that are tracked. -/
def maxTrackedChecks : ℕ := 128

def defaultComponent : UInt16 := 1

def defaultLocalPreference : UInt16 := 65535

def defaultCheckAttempts : ℕ := 7

inductive CandidateType where
  | host
  | serverReflexive
  | peerReflexive
  | relay
  deriving DecidableEq

namespace CandidateType

def preference : CandidateType → ℕ
  | host => 126
  | peerReflexive => 110
  | serverReflexive => 100
  | relay => 0

def asStr : CandidateType → String
  | host => "host"
  | serverReflexive => "srflx"
  | peerReflexive => "prflx"
  | relay => "relay"

end CandidateType

/-- `2^24 * type + 2^8 * local + (256 - component)`, which a `u32` holds. -/
def candidatePriority (ctype : CandidateType) (localPreference component : UInt16) : UInt32 :=
  UInt32.ofNat (ctype.preference * 2 ^ 24 + localPreference.toNat * 2 ^ 8 +
    (256 - component.toNat))

/-! ### Foundations -/

/-- A number in lower-case hexadecimal digits. -/
def hexText (n : ℕ) : String := String.ofList (Nat.toDigits 16 n)

/-- The eight 16-bit segments of an IPv6 address. -/
def segments (octets : Octets 16) : List ℕ := (chunks2 octets.toList).map UInt16.toNat

/-- Start and length of the longest run of zeros, the first of those of that length. -/
def longestZeros : List ℕ → ℕ → ℕ × ℕ → ℕ × ℕ → ℕ × ℕ
  | [], _, _, best => best
  | s :: rest, i, current, best =>
      if s = 0 then
        let run := if current.2 = 0 then (i, 1) else (current.1, current.2 + 1)
        longestZeros rest (i + 1) run (if run.2 > best.2 then run else best)
      else longestZeros rest (i + 1) (0, 0) best

def decimalText (octets : Bytes) : String :=
  String.intercalate "." (octets.map fun b => toString b.toNat)

/-- The text of an address, as `Display` writes it. -/
def ipText : IpAddr → String
  | .v4 octets => decimalText octets.toList
  | .v6 octets =>
      let segs := segments octets
      let join (l : List ℕ) : String := String.intercalate ":" (l.map hexText)
      if segs.take 6 = [0, 0, 0, 0, 0, 0xFFFF] then
        "::ffff:" ++ decimalText (octets.toList.drop 12)
      else
        let zeros := longestZeros segs 0 (0, 0) (0, 0)
        if zeros.2 > 1 then
          join (segs.take zeros.1) ++ "::" ++ join (segs.drop (zeros.1 + zeros.2))
        else join segs

/-- The CRC of the type, the base and the STUN server, in eight digits. -/
def foundation (ctype : CandidateType) (base : SocketAddr) (stunServer : Option SocketAddr) :
    String :=
  let server := (stunServer.map fun s => ipText s.ip).getD ""
  let crc := crc32Ieee (utf8 (ctype.asStr ++ "|" ++ ipText base.ip ++ "|" ++ server))
  let digits := Nat.toDigits 16 crc.toNat
  String.ofList (List.replicate (8 - digits.length) '0' ++ digits)

structure Candidate where
  foundation : String
  component : UInt16
  ctype : CandidateType
  priority : UInt32
  base : SocketAddr
  addr : SocketAddr
  deriving DecidableEq

def Candidate.new (ctype : CandidateType) (base addr : SocketAddr) (component : UInt16)
    (stunServer : Option SocketAddr) : Candidate where
  foundation := Ice.foundation ctype base stunServer
  component := component
  ctype := ctype
  priority := candidatePriority ctype defaultLocalPreference component
  base := base
  addr := addr

structure IceCredentials where
  ufrag : String
  password : String
  deriving DecidableEq

/-- `IceCredentials::validate`: the length bounds on what an offer may carry. -/
def IceCredentials.Valid (c : IceCredentials) : Prop :=
  4 ≤ (utf8 c.ufrag).length ∧ (utf8 c.ufrag).length ≤ 256 ∧
    22 ≤ (utf8 c.password).length ∧ (utf8 c.password).length ≤ 256

inductive IceRole where
  | controlling
  | controlled
  deriving DecidableEq

def IceRole.other : IceRole → IceRole
  | controlling => controlled
  | controlled => controlling

theorem IceRole.other_ne (r : IceRole) : r.other ≠ r := by
  cases r <;> decide

/-! ### Check lists -/

inductive PairState where
  | frozen
  | waiting
  | inProgress
  | succeeded
  | failed
  deriving DecidableEq

structure CandidatePair where
  local_ : Candidate
  remote : Candidate
  state : PairState
  nominated : Bool
  priority : ℕ
  attempts : ℕ
  rtt : Option ℕ
  deriving DecidableEq

/-- `2^32 * min(G,D) + 2 * max(G,D) + (G > D)`. One of the two is the priority of a local
candidate, which is below `2 ^ 31`, so a `u64` holds it. -/
def pairPriorityMinmax (g d : UInt32) : ℕ :=
  2 ^ 32 * min g.toNat d.toNat + 2 * max g.toNat d.toNat + if g > d then 1 else 0

def pairPriorityFor (role : IceRole) (localPriority remotePriority : UInt32) : ℕ :=
  match role with
  | .controlling => pairPriorityMinmax localPriority remotePriority
  | .controlled => pairPriorityMinmax remotePriority localPriority

/-- The order of addresses: IPv4 before IPv6, by octets, then by port. -/
def addrRank (addr : SocketAddr) : ℕ :=
  match addr.ip with
  | .v4 octets => fromBeBytes octets.toList
  | .v6 octets => 2 ^ 32 + fromBeBytes octets.toList

/-- Whether the sort of the check list leaves `a` before `b`: by descending priority, then by
remote address. -/
def CandidatePair.Before (a b : CandidatePair) : Prop :=
  b.priority < a.priority ∨ (b.priority = a.priority ∧
    (addrRank a.remote.addr < addrRank b.remote.addr ∨
      (addrRank a.remote.addr = addrRank b.remote.addr ∧
        a.remote.addr.port ≤ b.remote.addr.port)))
  deriving Decidable

inductive IceError where
  | missingRemoteCredentials
  | noCandidates
  | stun (e : StunError)
  deriving DecidableEq

structure CheckOutcome where
  /-- The pair the check was matched to; `none` is the `usize::MAX` of an unmatched response. -/
  pair : Option ℕ
  response : Option Bytes
  nominated : Bool
  roleFlipped : Bool
  completedOurCheck : Option ℕ
  deriving DecidableEq

/-! ### The agent -/

structure IceAgent where
  role : IceRole
  tieBreaker : UInt64
  localCredentials : IceCredentials
  remoteCredentials : Option IceCredentials
  localCandidates : List Candidate
  remoteCandidates : List Candidate
  pairs : List CandidatePair
  nominated : Option ℕ
  retransmitAttempts : ℕ
  discoveredPrflx : ℕ
  /-- Transaction → pair, local base and instant of the check. -/
  checksSent : Table TransactionId (ℕ × SocketAddr × ℕ)
  checkOrder : List TransactionId

namespace IceAgent

/-- A new agent, with the tie-breaker and the credentials that are drawn for it. -/
def new (role : IceRole) (tieBreaker : UInt64) (credentials : IceCredentials) : IceAgent where
  role := role
  tieBreaker := tieBreaker
  localCredentials := credentials
  remoteCredentials := none
  localCandidates := []
  remoteCandidates := []
  pairs := []
  nominated := none
  retransmitAttempts := defaultCheckAttempts
  discoveredPrflx := 0
  checksSent := ∅
  checkOrder := []

def setRemoteCredentials (a : IceAgent) (credentials : IceCredentials) : IceAgent :=
  { a with remoteCredentials := some credentials }

def addHostCandidate (a : IceAgent) (base advertised : SocketAddr) : IceAgent :=
  { a with localCandidates := a.localCandidates ++
      [Candidate.new .host base advertised defaultComponent none] }

def addRemoteCandidate (a : IceAgent) (c : Candidate) : IceAgent :=
  { a with remoteCandidates := a.remoteCandidates ++ [c] }

/-- The pairs in their initial state: the first of each foundation and component is eligible. -/
def freeze : List (String × UInt16) → List CandidatePair → List CandidatePair
  | _, [] => []
  | seen, p :: pairs =>
      let key := (p.local_.foundation, p.local_.component)
      if key ∈ seen then { p with state := .frozen } :: freeze seen pairs
      else { p with state := .waiting } :: freeze (seen ++ [key]) pairs

def formPairs (a : IceAgent) : IceAgent :=
  let pairs := a.localCandidates.flatMap fun l =>
    (a.remoteCandidates.filter fun r => l.component = r.component).map fun r =>
      { local_ := l, remote := r, state := .frozen, nominated := false,
        priority := pairPriorityFor a.role l.priority r.priority, attempts := 0, rtt := none }
  { a with
    pairs := freeze [] (pairs.insertionSort CandidatePair.Before)
    nominated := none
    checksSent := ∅
    checkOrder := [] }

@[simp] theorem formPairs_formPairs (a : IceAgent) : a.formPairs.formPairs = a.formPairs := rfl

/-- Frees the frozen pairs of a foundation all of whose pairs have failed. -/
def unfreeze (pairs : List CandidatePair) (key : String × UInt16) : List CandidatePair :=
  let ofKey (p : CandidatePair) : Bool := (p.local_.foundation, p.local_.component) = key
  if pairs.all fun p => !ofKey p || p.state = .failed then
    pairs.map fun p => if ofKey p ∧ p.state = .frozen then { p with state := .waiting } else p
  else pairs

/-- The last of the waiting pairs with the highest priority. -/
def bestWaiting (pairs : List CandidatePair) : Option ℕ :=
  (pairs.zipIdx.foldl (fun best (p, i) =>
    if p.state = .waiting then
      match best with
      | some (priority, _) => if priority ≤ p.priority then some (p.priority, i) else best
      | none => some (p.priority, i)
    else best) none).map Prod.snd

def nextCheck (a : IceAgent) : IceAgent × Option ℕ :=
  let failedFoundations := (a.pairs.filter fun p => p.state = .failed).map fun p =>
    (p.local_.foundation, p.local_.component)
  let pairs := failedFoundations.foldl unfreeze a.pairs
  match bestWaiting pairs with
  | none => ({ a with pairs := pairs }, none)
  | some idx =>
      ({ a with
          pairs := pairs.modify idx fun p =>
            { p with state := .inProgress, attempts := p.attempts + 1 } }, some idx)

def failPair (a : IceAgent) (idx : ℕ) : IceAgent :=
  { a with pairs := a.pairs.modify idx fun p => { p with state := .failed } }

def canRetransmit (a : IceAgent) (idx : ℕ) : Bool :=
  match a.pairs[idx]? with
  | some p => p.attempts < a.retransmitAttempts
  | none => false

def retransmit (a : IceAgent) (idx : ℕ) : IceAgent × Bool :=
  if a.canRetransmit idx then
    ({ a with pairs := a.pairs.modify idx fun p => { p with attempts := p.attempts + 1 } }, true)
  else (a, false)

def selectedPair (a : IceAgent) : Option CandidatePair :=
  match a.nominated with
  | none => none
  | some idx =>
      match a.pairs[idx]? with
      | some p => if p.state = .succeeded then some p else none
      | none => none

/-- Only a pair that has succeeded is nominated. -/
def nominate (a : IceAgent) (idx : ℕ) : IceAgent :=
  match a.pairs[idx]? with
  | some p =>
      if p.state = .succeeded then
        { a with
          pairs := a.pairs.modify idx fun p => { p with nominated := true }
          nominated := some idx }
      else a
  | none => a

def usernameForOutgoing (a : IceAgent) (remote : IceCredentials) : String :=
  remote.ufrag ++ ":" ++ a.localCredentials.ufrag

def trackCheck (a : IceAgent) (txid : TransactionId) (idx : ℕ) (base : SocketAddr) (now : ℕ) :
    IceAgent :=
  let order := a.checkOrder ++ [txid]
  let excess := order.length - maxTrackedChecks
  { a with
    checksSent := (order.take excess).foldl (fun t old => t.erase old)
      (a.checksSent.insert txid (idx, base, now))
    checkOrder := order.drop excess }

/-- Exactly one role attribute, never both. -/
def roleAttr (a : IceAgent) : Attribute :=
  match a.role with
  | .controlling => .iceControlling a.tieBreaker
  | .controlled => .iceControlled a.tieBreaker

def checkMessage (a : IceAgent) (remote : IceCredentials) (pair : CandidatePair) (nominate : Bool)
    (txid : TransactionId) : Message :=
  let msg := ((bindingRequest txid).push (.username (utf8 (a.usernameForOutgoing remote)))).push
    (.priority pair.local_.priority)
  let msg := if nominate ∧ a.role = .controlling then msg.push .useCandidate else msg
  msg.push a.roleAttr

variable (d : Digests)

def buildCheck (a : IceAgent) (idx : ℕ) (nominate : Bool) (txid : TransactionId) (now : ℕ) :
    IceAgent × Except IceError Bytes :=
  match a.pairs[idx]? with
  | none => (a, .error .noCandidates)
  | some pair =>
      match a.remoteCredentials with
      | none => (a, .error .missingRemoteCredentials)
      | some remote =>
          (a.trackCheck txid idx pair.local_.base now,
            .ok ((a.checkMessage remote pair nominate txid).encodeWithIntegrity d
              (utf8 remote.password)))

def peerTie (msg : Message) : UInt64 :=
  match msg.get Attr.iceControlling, msg.get Attr.iceControlled with
  | some (.iceControlling t), _ => t
  | _, some (.iceControlled t) => t
  | _, _ => 0

def claims (msg : Message) : IceRole → Bool
  | .controlling =>
      match msg.get Attr.iceControlling with
      | some (.iceControlling _) => true
      | _ => false
  | .controlled =>
      match msg.get Attr.iceControlled with
      | some (.iceControlled _) => true
      | _ => false

/-- Whether the agent loses a role conflict to the sender of a request. -/
def losesConflict (a : IceAgent) (msg : Message) : Bool :=
  claims msg a.role && a.tieBreaker < peerTie msg

/-- The agent after the role conflict, if there is one, is settled. -/
def resolveRole (a : IceAgent) (msg : Message) : IceAgent :=
  if a.losesConflict msg then formPairs { a with role := a.role.other } else a

/-- The pair a request from `src` belongs to: one that is known, or one with the candidate that is
learned from it. -/
def matchRequest (a : IceAgent) (src : SocketAddr) : IceAgent × Except IceError ℕ :=
  match a.pairs.findIdx? fun p => p.remote.addr = src with
  | some i => (a, .ok i)
  | none =>
      let base := match a.localCandidates.head? with
        | some c => c.base
        | none => src
      let prflx := Candidate.new .peerReflexive base src defaultComponent none
      let a := { a with
        remoteCandidates := a.remoteCandidates ++ [prflx]
        discoveredPrflx := a.discoveredPrflx + 1 }
      match a.localCandidates.head? with
      | none => (a, .error .noCandidates)
      | some l =>
          ({ a with
              pairs := a.pairs ++ [{
                local_ := l, remote := prflx, state := .succeeded, nominated := false,
                priority := pairPriorityFor a.role l.priority prflx.priority
                attempts := 0, rtt := none }] }, .ok a.pairs.length)

def succeed (a : IceAgent) (idx : ℕ) : IceAgent :=
  { a with pairs := a.pairs.modify idx fun p => { p with state := .succeeded } }

/-- The response to a request, with its `USERNAME`. -/
def responseMessage (msg : Message) (src : SocketAddr) : Message :=
  let resp := bindingSuccess msg.txid src
  match msg.get Attr.username with
  | some (.username u) => resp.push (.username u)
  | _ => resp

def processRequest (a : IceAgent) (msg : Message) (src : SocketAddr) :
    IceAgent × Except IceError CheckOutcome :=
  let nominatedByPeer := (msg.get Attr.useCandidate).isSome
  match (a.resolveRole msg).matchRequest src with
  | (b, .error e) => (b, .error e)
  | (b, .ok idx) =>
      let b := b.succeed idx
      let b := if nominatedByPeer then b.nominate idx else b
      (b, .ok {
        pair := some idx
        response := some ((responseMessage msg src).encodeWithIntegrity d
          (utf8 a.localCredentials.password))
        nominated := nominatedByPeer
        roleFlipped := a.losesConflict msg
        completedOurCheck := none })

def handleRequest (a : IceAgent) (raw : Bytes) (msg : Message) (src : SocketAddr) :
    IceAgent × Except IceError CheckOutcome :=
  match verifyIntegrity d raw (utf8 a.localCredentials.password) with
  | .error _ => (a, .error (.stun .badIntegrity))
  | .ok () => a.processRequest d msg src

/-- The pair a response belongs to, by its transaction or else by its source, and the time it
took. -/
def matchResponse (a : IceAgent) (txid : TransactionId) (src : SocketAddr) (now : ℕ) :
    Option ℕ × Option (ℕ × ℕ) :=
  let measured := (a.checksSent.lookup txid).map fun (sent : ℕ × SocketAddr × ℕ) =>
    (sent.1, now - sent.2.2)
  match measured with
  | some (idx, _) =>
      if idx < a.pairs.length then (some idx, measured)
      else (a.pairs.findIdx? fun p => p.remote.addr = src, measured)
  | none => (a.pairs.findIdx? fun p => p.remote.addr = src, measured)

/-- The round trip is the one of the pair that was probed. -/
def recordRtt (a : IceAgent) : Option (ℕ × ℕ) → IceAgent
  | some (sent, rtt) =>
      { a with pairs := a.pairs.modify sent fun p => { p with rtt := some rtt } }
  | none => a

/-- The controlling agent nominates the first pair it proved. -/
def nominateProved (a : IceAgent) (idx : ℕ) : IceAgent :=
  if a.role = .controlling ∧ a.nominated = none then a.nominate idx else a

def processResponse (a : IceAgent) (msg : Message) (src : SocketAddr) (now : ℕ) :
    IceAgent × CheckOutcome :=
  let (found, measured) := a.matchResponse msg.txid src now
  let b := { a with checksSent := a.checksSent.erase msg.txid }
  match found with
  | none =>
      (b, { pair := none, response := none, nominated := false, roleFlipped := false,
            completedOurCheck := none })
  | some idx =>
      let b := ((b.succeed idx).recordRtt measured).nominateProved idx
      (b, {
        pair := some idx, response := none, nominated := b.nominated = some idx
        roleFlipped := false
        completedOurCheck := b.pairs[idx]?.bind (·.rtt) })

def handleResponse (a : IceAgent) (raw : Bytes) (msg : Message) (src : SocketAddr) (now : ℕ) :
    IceAgent × Except IceError CheckOutcome :=
  match a.remoteCredentials with
  | none => (a, .error .missingRemoteCredentials)
  | some remote =>
      match verifyIntegrity d raw (utf8 remote.password) with
      | .error _ => (a, .error (.stun .badIntegrity))
      | .ok () =>
          let (b, outcome) := a.processResponse msg src now
          (b, .ok outcome)

def handleCheck (a : IceAgent) (raw : Bytes) (src : SocketAddr) (now : ℕ) :
    IceAgent × Except IceError (Option CheckOutcome) :=
  match parse raw with
  | .error _ => (a, .ok none)
  | .ok msg =>
      if msg.typ.method ≠ .binding then (a, .ok none)
      else
        match msg.typ.cls with
        | .request =>
            let (b, r) := a.handleRequest d raw msg src
            (b, r.map some)
        | .successResponse =>
            let (b, r) := a.handleResponse d raw msg src now
            (b, r.map some)
        | _ => (a, .ok none)

end IceAgent

/-! ### What the operations keep -/

/-- Who an agent is to its peer: its role, and what is fixed for its lifetime. -/
structure Party where
  role : IceRole
  tieBreaker : UInt64
  localCredentials : IceCredentials
  remoteCredentials : Option IceCredentials

namespace IceAgent

def party (a : IceAgent) : Party where
  role := a.role
  tieBreaker := a.tieBreaker
  localCredentials := a.localCredentials
  remoteCredentials := a.remoteCredentials

@[simp] theorem party_succeed (a : IceAgent) (idx : ℕ) : (a.succeed idx).party = a.party := rfl

@[simp] theorem party_failPair (a : IceAgent) (idx : ℕ) : (a.failPair idx).party = a.party := rfl

@[simp] theorem party_trackCheck (a : IceAgent) (txid : TransactionId) (idx : ℕ)
    (base : SocketAddr) (now : ℕ) : (a.trackCheck txid idx base now).party = a.party := by
  simp only [trackCheck, party]

@[simp] theorem party_nominate (a : IceAgent) (idx : ℕ) : (a.nominate idx).party = a.party := by
  unfold nominate
  split
  · split <;> rfl
  · rfl

@[simp] theorem party_nextCheck (a : IceAgent) : a.nextCheck.1.party = a.party := by
  simp only [nextCheck]
  split <;> rfl

@[simp] theorem party_retransmit (a : IceAgent) (idx : ℕ) :
    (a.retransmit idx).1.party = a.party := by
  unfold retransmit
  split <;> rfl

@[simp] theorem party_matchRequest (a : IceAgent) (src : SocketAddr) :
    (a.matchRequest src).1.party = a.party := by
  simp only [matchRequest]
  split
  · rfl
  · split <;> rfl

theorem party_resolveRole (a : IceAgent) (msg : Message) :
    (a.resolveRole msg).party =
      { a.party with role := if a.losesConflict msg then a.role.other else a.role } := by
  unfold resolveRole
  split
  · rfl
  · rfl

variable (d : Digests)

@[simp] theorem party_buildCheck (a : IceAgent) (idx : ℕ) (nominate : Bool) (txid : TransactionId)
    (now : ℕ) : (a.buildCheck d idx nominate txid now).1.party = a.party := by
  unfold buildCheck
  split
  · rfl
  · split
    · rfl
    · exact party_trackCheck ..

theorem party_processRequest (a : IceAgent) (msg : Message) (src : SocketAddr) :
    (a.processRequest d msg src).1.party = (a.resolveRole msg).party := by
  have hmatch := party_matchRequest (a.resolveRole msg) src
  simp only [processRequest]
  split
  · rename_i heq
    rw [heq] at hmatch
    exact hmatch
  · rename_i heq
    rw [heq] at hmatch
    split
    · rw [party_nominate, party_succeed, hmatch]
    · rw [party_succeed, hmatch]

@[simp] theorem party_recordRtt (a : IceAgent) (measured : Option (ℕ × ℕ)) :
    (a.recordRtt measured).party = a.party := by
  cases measured <;> rfl

@[simp] theorem party_nominateProved (a : IceAgent) (idx : ℕ) :
    (a.nominateProved idx).party = a.party := by
  unfold nominateProved
  split
  · exact party_nominate a idx
  · rfl

@[simp] theorem party_processResponse (a : IceAgent) (msg : Message) (src : SocketAddr) (now : ℕ) :
    (a.processResponse msg src now).1.party = a.party := by
  simp only [processResponse]
  split
  · rfl
  · rw [party_nominateProved, party_recordRtt, party_succeed]
    rfl

end IceAgent

end Vantablack.Ice
