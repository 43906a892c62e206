import Vantablack.Ice.AddrText

/-!
The text form of candidates and offers in `net/ice.rs`, written for a peer and read off the wire. A
socket address has no IPv6 scope and no flow label here.
-/

namespace Vantablack.Ice

open Lib Lib.Text Layers Receive Net Stun List

/-- `IceError::Malformed`, the only error of the text forms. -/
structure Malformed where
  what : String
  deriving DecidableEq

/-! ### Candidates -/

def nextWord (missing : String) :
    List (List Char) → Except Malformed (List Char × List (List Char))
  | [] => .error ⟨missing⟩
  | word :: it => .ok (word, it)

/-- What a word was parsed to. -/
def parsed {α : Type} (bad : String) : Option α → Except Malformed α
  | none => .error ⟨bad⟩
  | some a => .ok a

def parseType (word : Option (List Char)) : Except Malformed CandidateType :=
  if word = some "host".toList then .ok .host
  else if word = some "srflx".toList then .ok .serverReflexive
  else if word = some "prflx".toList then .ok .peerReflexive
  else if word = some "relay".toList then .ok .relay
  else .error ⟨"candidate: unknown type"⟩

/-- The loop over the words behind the type. A later base takes the place of an earlier one. -/
def readBase (base : SocketAddr) : List (List Char) → Except Malformed SocketAddr
  | [] => .ok base
  | key :: it =>
      if key = "raddr".toList then
        match it with
        | [] => .error ⟨"candidate: raddr without an address"⟩
        | word :: it =>
            match parseIp word, it with
            | none, _ => .error ⟨"candidate: bad raddr"⟩
            | some _, [] => .error ⟨"candidate: raddr without rport"⟩
            | some ip, key :: it =>
                if eqIgnoreAsciiCase key "rport" then
                  match it with
                  | [] => .error ⟨"candidate: rport missing"⟩
                  | word :: it =>
                      match parseUnsigned (2 ^ 16) word with
                      | none => .error ⟨"candidate: bad rport"⟩
                      | some rport => readBase { ip := ip, port := rport } it
                else .error ⟨"candidate: raddr without rport"⟩
      else .error ⟨"candidate: unknown attribute"⟩

namespace Candidate

def fromAttribute (value : List Char) : Except Malformed Candidate := do
  let s := (stripPrefix "candidate:" value).getD value
  let (foundation, it) ← nextWord "candidate: missing foundation" (splitWhitespace s)
  let (component, it) ← nextWord "candidate: missing component" it
  let component ← parsed "candidate: bad component" (parseUnsigned (2 ^ 16) component)
  let (transport, it) ← nextWord "candidate: missing transport" it
  if !eqIgnoreAsciiCase transport "udp" then
    .error ⟨"candidate: unsupported transport"⟩
  else
    let (priority, it) ← nextWord "candidate: missing priority" it
    let priority ← parsed "candidate: bad priority" (parseUnsigned (2 ^ 32) priority)
    let (ip, it) ← nextWord "candidate: missing address" it
    let ip ← parsed "candidate: bad address" (parseIp ip)
    let (port, it) ← nextWord "candidate: missing port" it
    let port ← parsed "candidate: bad port" (parseUnsigned (2 ^ 16) port)
    let (typ, it) ← nextWord "candidate: missing typ" it
    if !eqIgnoreAsciiCase typ "typ" then .error ⟨"candidate: missing typ"⟩
    else
      let ctype ← parseType it.head?
      let addr : SocketAddr := { ip := ip, port := port }
      let base ← readBase addr it.tail
      .ok
        { foundation := String.ofList foundation
          component := UInt16.ofNat component
          ctype := ctype
          priority := UInt32.ofNat priority
          base := base
          addr := addr }

/-- The base is written where it is not the address that a peer sends to. -/
def toAttribute (c : Candidate) : String :=
  "candidate:" ++ c.foundation ++ " " ++ c.component.toNat.repr ++ " UDP " ++
    c.priority.toNat.repr ++ " " ++ ipText c.addr.ip ++ " " ++ c.addr.port.repr ++ " typ " ++
    c.ctype.asStr ++
    (if c.base ≠ c.addr then " raddr " ++ ipText c.base.ip ++ " rport " ++ c.base.port.repr else "")

end Candidate

/-! ### Offers -/

def maxCandidatesInOffer : ℕ := 32

def IceCredentials.validate (c : IceCredentials) : Except Malformed Unit :=
  if (utf8 c.ufrag).length < 4 ∨ 256 < (utf8 c.ufrag).length then
    .error ⟨"ice-ufrag must be 4..=256 characters"⟩
  else if (utf8 c.password).length < 22 ∨ 256 < (utf8 c.password).length then
    .error ⟨"ice-pwd must be 22..=256 characters"⟩
  else .ok ()

structure IceOffer where
  credentials : IceCredentials
  candidates : List Candidate
  controlling : Bool
  deriving DecidableEq

/-- What the lines read so far have given. -/
structure OfferParts where
  ufrag : Option String
  password : Option String
  controlling : Option Bool
  candidates : List Candidate

namespace OfferParts

def readLine (o : OfferParts) (line : List Char) : Except Malformed OfferParts :=
  match stripPrefix "ice-ufrag:" line with
  | some v => .ok { o with ufrag := some (String.ofList (trim v)) }
  | none =>
      match stripPrefix "ice-pwd:" line with
      | some v => .ok { o with password := some (String.ofList (trim v)) }
      | none =>
          match stripPrefix "role:" line with
          | some v =>
              if trim v = "controlling".toList then .ok { o with controlling := some true }
              else if trim v = "controlled".toList then .ok { o with controlling := some false }
              else .error ⟨"offer: unknown role"⟩
          | none =>
              if (stripPrefix "candidate:" line).isSome then
                if maxCandidatesInOffer ≤ o.candidates.length then
                  .error ⟨"offer: too many candidates"⟩
                else
                  (Candidate.fromAttribute line).map fun c =>
                    { o with candidates := o.candidates ++ [c] }
              else .error ⟨"offer: unrecognised line"⟩

def readLines (o : OfferParts) : List (List Char) → Except Malformed OfferParts
  | [] => .ok o
  | line :: rest => (readLine o line).bind (readLines · rest)

end OfferParts

namespace IceOffer

def encode (o : IceOffer) : String :=
  "ice-ufrag:" ++ o.credentials.ufrag ++ "\n" ++ "ice-pwd:" ++ o.credentials.password ++ "\n" ++
    "role:" ++ (if o.controlling then "controlling" else "controlled") ++ "\n" ++
    String.join (o.candidates.map fun c => c.toAttribute ++ "\n")

def decode (text : String) : Except Malformed IceOffer := do
  let o ← OfferParts.readLines
    { ufrag := none, password := none, controlling := none, candidates := [] }
    (((lines text.toList).map trim).filter fun line => !line.isEmpty)
  let ufrag ← parsed "offer: missing ice-ufrag" o.ufrag
  let password ← parsed "offer: missing ice-pwd" o.password
  let credentials : IceCredentials := { ufrag := ufrag, password := password }
  credentials.validate
  let controlling ← parsed "offer: missing role" o.controlling
  if o.candidates.isEmpty then .error ⟨"offer: no candidates"⟩
  else .ok { credentials := credentials, candidates := o.candidates, controlling := controlling }

end IceOffer

/-! ### A candidate as words -/

@[simp] theorem ok_bind {ε α β : Type} (a : α) (f : α → Except ε β) :
    (Except.ok a >>= f) = f a := rfl

namespace Candidate

variable {c : Candidate}

/-- What a candidate consists of that can be written: a foundation of one word, and ports of socket
addresses. -/
structure Writable (c : Candidate) : Prop where
  foundation : Word c.foundation.toList
  base : c.base.port < 2 ^ 16
  addr : c.addr.port < 2 ^ 16

def baseWords (c : Candidate) : List (List Char) :=
  if c.base ≠ c.addr then
    ["raddr".toList, (ipText c.base.ip).toList, "rport".toList, Nat.toDigits 10 c.base.port]
  else []

def words (c : Candidate) : List (List Char) :=
  [c.foundation.toList, Nat.toDigits 10 c.component.toNat, "UDP".toList,
    Nat.toDigits 10 c.priority.toNat, (ipText c.addr.ip).toList, Nat.toDigits 10 c.addr.port,
    "typ".toList, c.ctype.asStr.toList] ++ c.baseWords

theorem toList_toAttribute (c : Candidate) :
    c.toAttribute.toList = "candidate:".toList ++ [' '].intercalate c.words := by
  have hspace : " ".toList = [' '] := by decide
  have hudp : " UDP ".toList = [' '] ++ ("UDP".toList ++ [' ']) := by decide
  have htyp : " typ ".toList = [' '] ++ ("typ".toList ++ [' ']) := by decide
  have hraddr : " raddr ".toList = [' '] ++ ("raddr".toList ++ [' ']) := by decide
  have hrport : " rport ".toList = [' '] ++ ("rport".toList ++ [' ']) := by decide
  unfold toAttribute words baseWords
  by_cases h : c.base ≠ c.addr
  · rw [if_pos h, if_pos h]
    simp only [String.toList_append, Nat.toList_repr, hspace, hudp, htyp, hraddr, hrport,
      cons_append, nil_append, intercalate_cons_cons, intercalate_singleton,
      append_assoc]
  · rw [if_neg h, if_neg h]
    simp only [String.toList_append, Nat.toList_repr, hspace, hudp, htyp, append_nil,
      intercalate_cons_cons, intercalate_singleton, append_assoc,
      String.toList_empty]

theorem word_of_mem_words (h : c.Writable) : ∀ w ∈ c.words, Word w := by
  have htype : Word c.ctype.asStr.toList := by
    apply word_of_all
    cases c.ctype <;> decide
  have hbase : ∀ w ∈ c.baseWords, Word w := by
    unfold baseWords
    split
    · simp only [forall_mem_cons]
      refine ⟨word_of_all (by decide), word_ipText _, word_of_all (by decide), word_toDigits, ?_⟩
      intro w hw
      cases hw
    · intro w hw
      cases hw
  refine forall_mem_append.mpr ⟨?_, hbase⟩
  simp only [forall_mem_cons]
  refine ⟨h.foundation, word_toDigits, word_of_all (by decide), word_toDigits, word_ipText _,
    word_toDigits, word_of_all (by decide), htype, ?_⟩
  intro w hw
  cases hw

theorem readBase_baseWords (h : c.Writable) : readBase c.addr c.baseWords = .ok c.base := by
  unfold baseWords
  split
  · have hkey : eqIgnoreAsciiCase "rport".toList "rport" = true := by decide
    unfold readBase
    rw [if_pos rfl]
    dsimp only
    rw [parseIp_ipText]
    dsimp only
    rw [if_pos hkey, parseUnsigned_toDigits h.base]
    dsimp only
    rw [readBase]
  · rename_i heq
    rw [readBase, not_not.mp heq]

theorem parseType_asStr (t : CandidateType) : parseType (some t.asStr.toList) = .ok t := by
  cases t <;> decide

theorem fromAttribute_toAttribute (h : c.Writable) :
    fromAttribute c.toAttribute.toList = .ok c := by
  have hsplit : splitWhitespace ([' '].intercalate c.words) = c.words :=
    splitWhitespace_intercalate (word_of_mem_words h) (cons_ne_nil _ _)
  have hudp : eqIgnoreAsciiCase "UDP".toList "udp" = true := by decide
  have htyp : eqIgnoreAsciiCase "typ".toList "typ" = true := by decide
  have hbase : readBase { ip := c.addr.ip, port := c.addr.port } c.baseWords = .ok c.base :=
    readBase_baseWords h
  rw [fromAttribute, toList_toAttribute, stripPrefix_append, Option.getD_some, hsplit, words]
  simp only [cons_append, nil_append, nextWord, ok_bind, parsed, parseIp_ipText,
    parseUnsigned_toDigits c.component.toNat_lt, parseUnsigned_toDigits c.priority.toNat_lt,
    parseUnsigned_toDigits h.addr, hudp, htyp, Bool.not_true, Bool.false_eq_true, if_false,
    head?_cons, tail_cons, parseType_asStr, hbase, String.ofList_toList,
    UInt16.ofNat_toNat, UInt32.ofNat_toNat]

theorem line_toAttribute (h : c.Writable) :
    Trimmed c.toAttribute.toList ∧ '\n' ∉ c.toAttribute.toList ∧ c.toAttribute.toList ≠ [] := by
  obtain ⟨hne, htrimmed, hfeed⟩ := intercalate_words (word_of_mem_words h) (cons_ne_nil _ _)
  have hfront : Word "candidate:".toList := word_of_all (by decide)
  rw [toList_toAttribute]
  refine ⟨?_, ?_, append_ne_nil_of_right_ne_nil _ hne⟩
  · exact trimmed_append (t := []) hfront.ne_nil hne hfront.trimmed htrimmed
  · rw [mem_append, not_or]
    exact ⟨hfront.noFeed, hfeed⟩

end Candidate

/-! ### Reading what was written -/

/-- A value that stands at the end of a line. -/
structure LineValue (s : String) : Prop where
  ne_nil : s.toList ≠ []
  trimmed : Trimmed s.toList
  noFeed : '\n' ∉ s.toList

structure IceOffer.Writable (o : IceOffer) : Prop where
  credentials : o.credentials.validate = .ok ()
  ufrag : LineValue o.credentials.ufrag
  password : LineValue o.credentials.password
  count : 1 ≤ o.candidates.length ∧ o.candidates.length ≤ maxCandidatesInOffer
  candidates : ∀ c ∈ o.candidates, c.Writable

namespace IceOffer

variable {o : IceOffer}

def roleText (controlling : Bool) : String := if controlling then "controlling" else "controlled"

def encodedLines (o : IceOffer) : List (List Char) :=
  ["ice-ufrag:".toList ++ o.credentials.ufrag.toList,
    "ice-pwd:".toList ++ o.credentials.password.toList,
    "role:".toList ++ (roleText o.controlling).toList] ++
  o.candidates.map fun c => c.toAttribute.toList

theorem toList_encode (o : IceOffer) :
    o.encode.toList = o.encodedLines.flatMap (· ++ ['\n']) := by
  have hfeed : "\n".toList = ['\n'] := by decide
  unfold encode encodedLines roleText
  simp only [String.toList_append, hfeed, String.toList_join, flatMap_append,
    flatMap_cons, flatMap_nil, flatMap_map, append_assoc, append_nil]

theorem line_of_mem (h : o.Writable) {line : List Char} (hmem : line ∈ o.encodedLines) :
    Trimmed line ∧ '\n' ∉ line ∧ line ≠ [] := by
  have hvalue : ∀ {front : String} {s : String}, LineValue s → Word front.toList →
      Trimmed (front.toList ++ s.toList) ∧ '\n' ∉ front.toList ++ s.toList ∧
        front.toList ++ s.toList ≠ [] := by
    intro front s hs hfront
    refine ⟨trimmed_append (t := []) hfront.ne_nil hs.ne_nil hfront.trimmed hs.trimmed, ?_,
      append_ne_nil_of_left_ne_nil hfront.ne_nil _⟩
    rw [mem_append, not_or]
    exact ⟨hfront.noFeed, hs.noFeed⟩
  have hrole : LineValue (roleText o.controlling) := by
    have hword : Word (roleText o.controlling).toList := by
      cases o.controlling <;> exact word_of_all (by decide)
    exact ⟨hword.ne_nil, hword.trimmed, hword.noFeed⟩
  rcases mem_append.mp hmem with hmem | hmem
  · simp only [mem_cons, not_mem_nil, or_false] at hmem
    rcases hmem with rfl | rfl | rfl
    · exact hvalue h.ufrag (word_of_all (by decide))
    · exact hvalue h.password (word_of_all (by decide))
    · exact hvalue hrole (word_of_all (by decide))
  · obtain ⟨c, hc, rfl⟩ := mem_map.mp hmem
    exact Candidate.line_toAttribute (h.candidates c hc)

theorem lines_encode (h : o.Writable) :
    ((lines o.encode.toList).map trim).filter (fun line => !line.isEmpty) = o.encodedLines := by
  have hlines : lines o.encode.toList = o.encodedLines := by
    rw [toList_encode, lines_flatMap fun line hmem => ?_]
    exact ⟨(line_of_mem h hmem).2.1, (line_of_mem h hmem).1⟩
  have htrim : o.encodedLines.map trim = o.encodedLines := by
    have hid : ∀ line ∈ o.encodedLines, trim line = id line :=
      fun line hmem => trim_of_trimmed (line_of_mem h hmem).1
    rw [map_congr_left hid, map_id]
  rw [hlines, htrim, filter_eq_self]
  intro line hmem
  simpa using (line_of_mem h hmem).2.2

end IceOffer

namespace OfferParts

variable {o o' : OfferParts}

theorem readLine_ufrag (o : OfferParts) (v : List Char) :
    o.readLine ("ice-ufrag:".toList ++ v) =
      .ok { o with ufrag := some (String.ofList (trim v)) } := by
  rw [readLine, stripPrefix_append]

theorem readLine_password (o : OfferParts) (v : List Char) :
    o.readLine ("ice-pwd:".toList ++ v) =
      .ok { o with password := some (String.ofList (trim v)) } := by
  have hufrag : stripPrefix "ice-ufrag:" ("ice-pwd:".toList ++ v) = none := rfl
  rw [readLine, hufrag, stripPrefix_append]

theorem readLine_role (o : OfferParts) (controlling : Bool) :
    o.readLine ("role:".toList ++ (IceOffer.roleText controlling).toList) =
      .ok { o with controlling := some controlling } := by
  have hufrag : ∀ v, stripPrefix "ice-ufrag:" ("role:".toList ++ v) = none := fun v => rfl
  have hpassword : ∀ v, stripPrefix "ice-pwd:" ("role:".toList ++ v) = none := fun v => rfl
  rw [readLine, hufrag, hpassword, stripPrefix_append]
  cases controlling <;> rfl

theorem readLine_candidate {c : Candidate} (h : c.Writable)
    (hroom : o.candidates.length < maxCandidatesInOffer) :
    o.readLine c.toAttribute.toList = .ok { o with candidates := o.candidates ++ [c] } := by
  have hufrag : ∀ v, stripPrefix "ice-ufrag:" ("candidate:".toList ++ v) = none := fun v => rfl
  have hpassword : ∀ v, stripPrefix "ice-pwd:" ("candidate:".toList ++ v) = none := fun v => rfl
  have hrole : ∀ v, stripPrefix "role:" ("candidate:".toList ++ v) = none := fun v => rfl
  have hread := Candidate.fromAttribute_toAttribute h
  rw [Candidate.toList_toAttribute] at hread ⊢
  rw [readLine, hufrag, hpassword, hrole, stripPrefix_append]
  dsimp only
  rw [Option.isSome_some, if_pos rfl, if_neg (by omega), hread]
  rfl

theorem readLines_cons {line : List Char} (h : o.readLine line = .ok o') (rest : List (List Char)) :
    o.readLines (line :: rest) = o'.readLines rest := by
  rw [readLines, h]
  rfl

theorem readLines_candidates {candidates : List Candidate} (h : ∀ c ∈ candidates, c.Writable)
    (hroom : o.candidates.length + candidates.length ≤ maxCandidatesInOffer) :
    o.readLines (candidates.map fun c => c.toAttribute.toList) =
      .ok { o with candidates := o.candidates ++ candidates } := by
  induction candidates generalizing o with
  | nil => rw [map_nil, readLines, append_nil]
  | cons c candidates ih =>
      rw [length_cons] at hroom
      have hread := readLine_candidate (o := o) (h c mem_cons_self) (by omega)
      rw [map_cons, readLines_cons hread, ih fun c' hc' => h c' (mem_cons_of_mem c hc')]
      · simp only [append_assoc, singleton_append]
      · simp only [length_append, length_singleton]
        omega

end OfferParts

namespace IceOffer

theorem decode_encode {o : IceOffer} (h : o.Writable) : decode o.encode = .ok o := by
  have hufrag : String.ofList (trim o.credentials.ufrag.toList) = o.credentials.ufrag := by
    rw [trim_of_trimmed h.ufrag.trimmed, String.ofList_toList]
  have hpassword : String.ofList (trim o.credentials.password.toList) = o.credentials.password := by
    rw [trim_of_trimmed h.password.trimmed, String.ofList_toList]
  have hlast := OfferParts.readLines_candidates (o := ⟨some o.credentials.ufrag,
    some o.credentials.password, some o.controlling, []⟩) h.candidates
      (by simpa using h.count.2)
  have hsome : o.candidates.isEmpty = false := by
    have hcount := h.count.1
    cases hnil : o.candidates with
    | nil =>
        rw [hnil] at hcount
        exact absurd hcount (by decide)
    | cons c candidates => rfl
  rw [decode, lines_encode h, encodedLines, cons_append, cons_append, cons_append,
    nil_append, OfferParts.readLines_cons (OfferParts.readLine_ufrag _ _),
    OfferParts.readLines_cons (OfferParts.readLine_password _ _),
    OfferParts.readLines_cons (OfferParts.readLine_role _ _), hufrag, hpassword, hlast]
  simp only [ok_bind, parsed, nil_append, h.credentials, hsome, Bool.false_eq_true, if_false]

end IceOffer

/-! ### What is read can be written -/

theorem exists_of_bind {ε α β : Type} {x : Except ε α} {f : α → Except ε β} {b : β}
    (h : (x >>= f) = .ok b) : ∃ a, x = .ok a ∧ f a = .ok b := by
  cases x with
  | error e => cases h
  | ok a => exact ⟨a, rfl, h⟩

theorem eq_some_of_parsed {α : Type} {bad : String} {r : Option α} {a : α}
    (h : parsed bad r = .ok a) : r = some a := by
  cases r with
  | none => cases h
  | some a' => exact congrArg some (Except.ok.inj h)

theorem eq_cons_of_nextWord {missing : String} {it it' : List (List Char)} {w : List Char}
    (h : nextWord missing it = .ok (w, it')) : it = w :: it' := by
  cases it with
  | nil => cases h
  | cons v it =>
      cases h
      rfl

theorem port_lt_of_readBase {base base' : SocketAddr} {it : List (List Char)}
    (hbase : base.port < 2 ^ 16) (h : readBase base it = .ok base') : base'.port < 2 ^ 16 := by
  fun_induction readBase base it with
  | case1 base =>
      cases h
      exact hbase
  | case7 base word ip key hip hkey port it rport hport ih =>
      exact ih (lt_of_parseUnsigned hport) h
  | _ => cases h

namespace Candidate

theorem writable_of_fromAttribute {value : List Char} {c : Candidate}
    (h : fromAttribute value = .ok c) : c.Writable := by
  unfold fromAttribute at h
  obtain ⟨⟨foundation, it⟩, hfoundation, h⟩ := exists_of_bind h
  obtain ⟨⟨component, it⟩, -, h⟩ := exists_of_bind h
  obtain ⟨component, -, h⟩ := exists_of_bind h
  obtain ⟨⟨transport, it⟩, -, h⟩ := exists_of_bind h
  dsimp only at h
  split at h
  · cases h
  obtain ⟨⟨priority, it⟩, -, h⟩ := exists_of_bind h
  obtain ⟨priority, -, h⟩ := exists_of_bind h
  obtain ⟨⟨ip, it⟩, -, h⟩ := exists_of_bind h
  obtain ⟨ip, -, h⟩ := exists_of_bind h
  obtain ⟨⟨port, it⟩, -, h⟩ := exists_of_bind h
  obtain ⟨port, hport, h⟩ := exists_of_bind h
  obtain ⟨⟨typ, it⟩, -, h⟩ := exists_of_bind h
  dsimp only at h
  split at h
  · cases h
  obtain ⟨ctype, -, h⟩ := exists_of_bind h
  obtain ⟨base, hbase, h⟩ := exists_of_bind h
  have haddr : port < 2 ^ 16 := lt_of_parseUnsigned (eq_some_of_parsed hport)
  have hmem : foundation ∈ splitWhitespace ((stripPrefix "candidate:" value).getD value) := by
    rw [eq_cons_of_nextWord hfoundation]
    exact mem_cons_self
  cases h
  exact ⟨by rw [String.toList_ofList]; exact word_of_mem_splitWhitespace hmem,
    port_lt_of_readBase haddr hbase, haddr⟩

end Candidate

/-- What the lines of an offer give, and nothing that cannot be written. -/
structure OfferParts.Sound (o : OfferParts) : Prop where
  ufrag : ∀ u ∈ o.ufrag, Trimmed u.toList ∧ '\n' ∉ u.toList
  password : ∀ p ∈ o.password, Trimmed p.toList ∧ '\n' ∉ p.toList
  count : o.candidates.length ≤ maxCandidatesInOffer
  candidates : ∀ c ∈ o.candidates, c.Writable

namespace OfferParts

variable {o o' : OfferParts}

theorem trimmed_value {front : String} {line v : List Char} (hfeed : '\n' ∉ line)
    (h : stripPrefix front line = some v) :
    ∀ s ∈ some (String.ofList (trim v)), Trimmed s.toList ∧ '\n' ∉ s.toList := by
  rintro s ⟨⟩
  rw [String.toList_ofList]
  refine ⟨trimmed_trim v, fun hmem => hfeed ?_⟩
  rw [eq_of_stripPrefix h]
  exact mem_append_right _ (mem_of_mem_trim hmem)

theorem sound_readLine (hs : o.Sound) {line : List Char} (hfeed : '\n' ∉ line)
    (h : o.readLine line = .ok o') : o'.Sound := by
  unfold readLine at h
  split at h
  · rename_i v hv
    cases h
    exact { hs with ufrag := trimmed_value hfeed hv }
  split at h
  · rename_i v hv
    cases h
    exact { hs with password := trimmed_value hfeed hv }
  split at h
  · split at h
    · cases h
      exact { hs with }
    split at h
    · cases h
      exact { hs with }
    · cases h
  split at h
  · split at h
    · cases h
    · rename_i hroom
      cases hc : Candidate.fromAttribute line with
      | error e =>
          rw [hc] at h
          cases h
      | ok c =>
          rw [hc] at h
          cases h
          refine { hs with count := ?_, candidates := ?_ }
          · simp only [length_append, length_singleton]
            omega
          · exact forall_mem_append.mpr ⟨hs.candidates, by
              simpa using Candidate.writable_of_fromAttribute hc⟩
  · cases h

theorem sound_readLines {ls : List (List Char)} (hs : o.Sound) (hfeed : ∀ line ∈ ls, '\n' ∉ line)
    (h : o.readLines ls = .ok o') : o'.Sound := by
  induction ls generalizing o with
  | nil =>
      cases h
      exact hs
  | cons line ls ih =>
      obtain ⟨o₁, hline, hrest⟩ := exists_of_bind h
      exact ih (sound_readLine hs (hfeed line mem_cons_self) hline)
        (fun l hl => hfeed l (mem_cons_of_mem line hl)) hrest

end OfferParts

namespace IceOffer

theorem lineValue_of_length {s : String} (hs : Trimmed s.toList ∧ '\n' ∉ s.toList)
    (hlen : 0 < (utf8 s).length) : LineValue s where
  ne_nil hnil := by
    rw [String.toList_eq_nil_iff] at hnil
    subst hnil
    exact absurd hlen (by decide)
  trimmed := hs.1
  noFeed := hs.2

theorem lengths_of_validate {c : IceCredentials} (h : c.validate = .ok ()) :
    4 ≤ (utf8 c.ufrag).length ∧ 22 ≤ (utf8 c.password).length := by
  unfold IceCredentials.validate at h
  split_ifs at h
  omega

theorem writable_of_decode {text : String} {o : IceOffer} (h : decode text = .ok o) :
    o.Writable := by
  unfold decode at h
  obtain ⟨parts, hparts, h⟩ := exists_of_bind h
  obtain ⟨ufrag, hufrag, h⟩ := exists_of_bind h
  obtain ⟨password, hpassword, h⟩ := exists_of_bind h
  obtain ⟨⟨⟩, hvalid, h⟩ := exists_of_bind h
  obtain ⟨controlling, -, h⟩ := exists_of_bind h
  split at h
  · cases h
  rename_i hsome
  cases h
  have hfeed : ∀ line ∈ ((lines text.toList).map trim).filter (fun line => !line.isEmpty),
      '\n' ∉ line := by
    intro line hline hmem
    obtain ⟨l, hl, rfl⟩ := mem_map.mp (mem_filter.mp hline).1
    exact notMem_of_mem_lines hl (mem_of_mem_trim hmem)
  have hsound : parts.Sound := by
    refine OfferParts.sound_readLines ⟨?_, ?_, Nat.zero_le _, ?_⟩ hfeed hparts
    · intro u hu
      cases hu
    · intro p hp
      cases hp
    · intro c hc
      cases hc
  obtain ⟨hlong, hlong'⟩ := lengths_of_validate hvalid
  refine ⟨hvalid, ?_, ?_, ⟨?_, hsound.count⟩, hsound.candidates⟩
  · exact lineValue_of_length (hsound.ufrag _ (eq_some_of_parsed hufrag))
      (Nat.lt_of_lt_of_le (by decide) hlong)
  · exact lineValue_of_length (hsound.password _ (eq_some_of_parsed hpassword))
      (Nat.lt_of_lt_of_le (by decide) hlong')
  · apply Nat.one_le_iff_ne_zero.mpr
    simpa using hsome

/-- An offer as an agent makes it: valid credentials without white space, and candidates with a
foundation of one word and the ports of socket addresses. -/
structure Plain (o : IceOffer) : Prop where
  credentials : o.credentials.validate = .ok ()
  ufrag : ∀ c ∈ o.credentials.ufrag.toList, isWhitespace c = false
  password : ∀ c ∈ o.credentials.password.toList, isWhitespace c = false
  count : 1 ≤ o.candidates.length ∧ o.candidates.length ≤ maxCandidatesInOffer
  candidates : ∀ c ∈ o.candidates, c.Writable

theorem Plain.writable {o : IceOffer} (h : o.Plain) : o.Writable := by
  have hlengths := lengths_of_validate h.credentials
  have hsolid : ∀ {s : String}, (∀ c ∈ s.toList, isWhitespace c = false) →
      Trimmed s.toList ∧ '\n' ∉ s.toList := fun hs =>
    ⟨trimmed_of_forall hs, fun hmem => absurd (hs _ hmem) (by decide)⟩
  exact ⟨h.credentials, lineValue_of_length (hsolid h.ufrag) (by omega),
    lineValue_of_length (hsolid h.password) (by omega), h.count, h.candidates⟩

/-- An agent's offer is read back as it is, and so is every offer that was read off the wire. -/
theorem decode_encode_of_plain_or_read {o : IceOffer}
    (h : o.Plain ∨ ∃ text, decode text = .ok o) : decode o.encode = .ok o := by
  rcases h with hplain | ⟨text, hread⟩
  · exact decode_encode hplain.writable
  · exact decode_encode (writable_of_decode hread)

/-- Behind a mapping and on a relay: a base that is not the address, and an IPv4-mapped address. -/
def sample : IceOffer where
  credentials := { ufrag := "1a2b", password := "00112233445566778899aa" }
  candidates :=
    [{ foundation := "candidate:f", component := 1, ctype := .serverReflexive, priority := 7
       base := { ip := .v4 (.replicate 4 10), port := 5000 }
       addr := { ip := .v4 (.replicate 4 9), port := 65535 } },
     { foundation := "0", component := 65535, ctype := .relay, priority := 0
       base := { ip := .v6 (.replicate 16 0), port := 0 }
       addr := { ip := .v6 (Block.zeroPadded 16 [0, 0, 0, 0, 0, 0, 0, 0, 0, 0, 255, 255, 1, 2, 3, 4])
                 port := 0 } }]
  controlling := false

theorem sample_plain : sample.Plain where
  credentials := by decide +kernel
  ufrag c hc := by
    have hword : Word sample.credentials.ufrag.toList := word_of_all (by decide +kernel)
    exact hword.solid c hc
  password c hc := by
    have hword : Word sample.credentials.password.toList := word_of_all (by decide +kernel)
    exact hword.solid c hc
  count := by decide
  candidates := by
    simp only [sample, forall_mem_cons]
    refine ⟨⟨word_of_all (by decide +kernel), by decide, by decide⟩,
      ⟨word_of_all (by decide +kernel), by decide, by decide⟩, ?_⟩
    intro c hc
    cases hc

/-- A text with white space in its values and a base that is written twice. -/
def sampleText : String :=
  "role:controlled\r\n ice-ufrag: a b c \nice-ufrag:x  y\nice-pwd:0123456789012345678901\n\n" ++
    "candidate: +f 1 udp 007 9.9.9.9 80 TYP srflx raddr ::1 rport 1 raddr 9.9.9.9 rport 80"

def sampleRead : IceOffer where
  credentials := { ufrag := "x  y", password := "0123456789012345678901" }
  candidates :=
    [{ foundation := "+f", component := 1, ctype := .serverReflexive, priority := 7
       base := { ip := .v4 (.replicate 4 9), port := 80 }
       addr := { ip := .v4 (.replicate 4 9), port := 80 } }]
  controlling := false

theorem decode_encode_sample :
    decode sample.encode = .ok sample ∧ decode sampleRead.encode = .ok sampleRead :=
  ⟨decode_encode_of_plain_or_read (.inl sample_plain),
    decode_encode_of_plain_or_read (.inr ⟨sampleText, by decide +kernel⟩)⟩

end IceOffer

end Vantablack.Ice
