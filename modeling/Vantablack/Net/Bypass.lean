import Vantablack.Ice.AddrText

/-!
The split-tunnel rules of `net/consumer.rs`. A text that a user enters is brought into a normal form
when it is stored, and the form is told apart by its shape when a destination is looked up.
-/

namespace Vantablack.Net

open Lib Lib.Text Ice

def maxBypassEntries : ℕ := 500

def maxRuleLen : ℕ := 253

def byteLen (s : List Char) : ℕ := (String.ofList s).utf8ByteSize

/-- `to_ascii_lowercase`. -/
def asciiLower (s : List Char) : List Char := s.map Char.toLower

/-- `trim_end_matches('.')`. -/
def trimEndDots (s : List Char) : List Char := s.rdropWhile (· == '.')

/-- `Ipv4Addr::from_str`, with the address as a number. -/
def parseIpv4 (s : List Char) : Option UInt32 :=
  match Inet.readIpv4Addr (utf8 (String.ofList s)) with
  | some (octets, []) => some (UInt32.ofNat (fromBeBytes (octets.map UInt8.ofNat)))
  | _ => none

def isHostChar (c : Char) : Bool := c.isAlphanum || c == '.' || c == '-' || c == '_'

/-- What stands between the dots of a host. -/
def isLabel (label : List Char) : Bool :=
  !label.isEmpty && label.head? != some '-' && label.getLast? != some '-' && byteLen label ≤ 63

def looksLikeHost (rule : List Char) : Bool :=
  if rule = ['*'] then true
  else
    let target := (stripPrefix "*." rule).getD rule
    if target.isEmpty || maxRuleLen < byteLen target || target.head? == some '.' then false
    else if !target.all isHostChar then false
    else (target.splitOn '.').all isLabel

structure Cidr where
  network : UInt32
  prefixLen : ℕ
  deriving DecidableEq

namespace Cidr

/-- `from_str`: without a slash the block is one address. -/
def fromStr (s : List Char) : Option Cidr := do
  let (addr, bits) := (splitOnce '/' s).getD (s, ['3', '2'])
  let ip ← parseIpv4 (trim addr)
  let bits ← parseUnsigned (2 ^ 8) (trim bits)
  if 32 < bits then none else some { network := ip, prefixLen := bits }

def contains (c : Cidr) (ip : UInt32) : Bool :=
  if c.prefixLen = 0 then true
  else
    let mask : UInt32 := 0xFFFFFFFF <<< UInt32.ofNat (32 - c.prefixLen)
    ip &&& mask == c.network &&& mask

end Cidr

/-- The port behind the only colon is dropped, also an empty one. -/
def dropPort (s : List Char) : List Char :=
  match rsplitOnce ':' s with
  | some (head, port) => if port.all Char.isDigit && !head.contains ':' then head else s
  | none => s

/-- The schemes of the URLs that are taken apart, in the order in which they are tried. -/
def schemes : List String := ["https://", "http://", "socks5://"]

/-- The text that may be a block. -/
def cidrCandidate (raw : List Char) : List Char :=
  ((stripPrefix "https://" raw).or (stripPrefix "http://" raw)).getD raw

/-- A block is stored as it is. -/
def cidrRule (raw : List Char) : Option (List Char) :=
  if '/' ∈ raw then
    if (Cidr.fromStr (cidrCandidate raw)).isSome then some (trim (cidrCandidate raw)) else none
  else none

def stripScheme (raw : List Char) : List Char :=
  (schemes.findSome? fun scheme => stripPrefix scheme raw).getD raw

/-- The host at the front of a text: a path, a port and dots at the end are dropped. -/
def hostOf (v : List Char) : List Char := trim (trimEndDots (dropPort (v.takeWhile (· ≠ '/'))))

def normalizeRule (rule : List Char) : Option (List Char) :=
  let raw := asciiLower (trim rule)
  if raw.isEmpty then none
  else
    match cidrRule raw with
    | some block => some block
    | none =>
      let v := hostOf (stripScheme raw)
      if looksLikeHost v then some v else none

def hostPart (host : List Char) : List Char := dropPort (trim host)

/-- What the rules are compared with. -/
def target (host : List Char) : List Char := asciiLower (trimEndDots (hostPart host))

/-- A name itself, or one that ends with a dot and the name. -/
def isUnder (suffix target : List Char) : Bool :=
  target == suffix || ('.' :: suffix).isSuffixOf target

/-- One round of the loop of `is_bypassed`. -/
def ruleMatches (target rule : List Char) : Bool :=
  if rule = ['*'] then true
  else
    match stripPrefix "*." rule with
    | some suffix => isUnder suffix target
    | none =>
      match stripPrefix "." rule with
      | some suffix => isUnder suffix target
      | none =>
        if '/' ∈ rule then
          match Cidr.fromStr rule, parseIpv4 target with
          | some cidr, some ip => cidr.contains ip
          | _, _ => false
        else
          match parseIpv4 rule with
          | some ruleIp => parseIpv4 target == some ruleIp
          | none => target == rule || (rule.contains '.' && ('.' :: rule).isSuffixOf target)

def isBypassed (rules : List (List Char)) (host : List Char) : Bool :=
  if (target host).isEmpty then false else rules.any (ruleMatches (target host))

structure ConsumerSettings where
  bypass : List (List Char)

namespace ConsumerSettings

/-- What the call returns, and the settings it leaves. -/
def addBypass (s : ConsumerSettings) (rule : List Char) : Except String Bool × ConsumerSettings :=
  match normalizeRule rule with
  | none =>
    (.error ("'" ++ String.ofList rule ++ "' is not a usable host, wildcard or IP range"), s)
  | some normalized =>
    if normalized ∈ s.bypass then (.ok false, s)
    else if maxBypassEntries ≤ s.bypass.length then
      (.error ("bypass list is full (" ++ Nat.repr maxBypassEntries ++ " entries)"), s)
    else (.ok true, { bypass := s.bypass ++ [normalized] })

def shouldBypass (s : ConsumerSettings) (host : List Char) : Bool := isBypassed s.bypass host

end ConsumerSettings

end Vantablack.Net
