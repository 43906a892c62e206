import Vantablack.Net.StunIntegrity

/-!
ChannelData framing of `net/turn.rs`: a channel number and a length in front of the payload.
The channel numbers are those that no STUN message type begins with. The lifetimes that client and
server share are here too, in seconds.
-/

namespace Vantablack.Turn

open Lib Layers Receive Net Stun

/-- What an allocation is asked for, and granted, at least. -/
def minLifetimeSecs : UInt32 := 600

theorem le_toNat_max_minLifetimeSecs (secs : UInt32) :
    600 ≤ (max secs minLifetimeSecs).toNat := by
  change 600 ≤ (if secs ≤ minLifetimeSecs then minLifetimeSecs else secs).toNat
  split
  · decide
  · rename_i h
    have hlt : minLifetimeSecs.toNat < secs.toNat := Nat.lt_of_not_le h
    exact hlt.le

def defaultPermissionLifetime : ℕ := 300

/-- Channel, length (a `u16`), payload, padded to four bytes. -/
def channelData (channel : UInt16) (payload : Bytes) : Bytes :=
  toBeBytes 2 channel.toNat ++ (toBeBytes 2 payload.length ++
    (payload ++ List.replicate (paddedLen payload.length - payload.length) 0))

def IsChannel (channel : UInt16) : Prop :=
  channelNumberMin ≤ channel ∧ channel ≤ channelNumberMax
  deriving Decidable

def parseChannelData (raw : Bytes) : Option (UInt16 × Bytes) :=
  if raw.length < 4 then none
  else
    let channel := UInt16.ofNat (fromBeBytes (raw.take 2))
    if ¬ IsChannel channel then none
    else
      let len := fromBeBytes ((raw.drop 2).take 2)
      if raw.length < 4 + len then none else some (channel, (raw.drop 4).take len)

theorem parseChannelData_eq_some {raw payload : Bytes} {channel : UInt16}
    (h : parseChannelData raw = some (channel, payload)) :
    IsChannel channel ∧ channel = UInt16.ofNat (fromBeBytes (raw.take 2)) ∧
      payload.length < 2 ^ 16 := by
  simp only [parseChannelData] at h
  split at h
  · cases h
  split at h
  · cases h
  split at h
  · cases h
  rename_i hchannel _
  cases h
  refine ⟨not_not.mp hchannel, rfl, ?_⟩
  calc
    ((raw.drop 4).take (fromBeBytes ((raw.drop 2).take 2))).length ≤
        fromBeBytes ((raw.drop 2).take 2) := List.length_take_le _ _
    _ < 256 ^ ((raw.drop 2).take 2).length := fromBeBytes_lt _
    _ ≤ 256 ^ 2 := Nat.pow_le_pow_right (by decide) (List.length_take_le _ _)

theorem channelData_eq (channel : UInt16) (payload : Bytes) :
    channelData channel payload = encodeTlv channel payload := rfl

theorem parseChannelData_channelData_mod {channel : UInt16} (hc : IsChannel channel)
    (payload : Bytes) :
    parseChannelData (channelData channel payload) =
      some (channel, payload.take (payload.length % 2 ^ 16)) := by
  have hpad := le_paddedLen payload.length
  have hmod := Nat.mod_le payload.length (2 ^ 16)
  have hkind : UInt16.ofNat (fromBeBytes ((channelData channel payload).take 2)) = channel := by
    rw [channelData, List.take_left' (length_toBeBytes 2 _), fromBeBytes_uint16]
  have hlength : fromBeBytes (((channelData channel payload).drop 2).take 2) =
      payload.length % 2 ^ 16 := by
    rw [channelData, List.drop_left' (length_toBeBytes 2 _), List.take_left' (length_toBeBytes 2 _),
      fromBeBytes_toBeBytes_mod, show 256 ^ 2 = 2 ^ 16 from rfl]
  have hvalue : ((channelData channel payload).drop 4).take (payload.length % 2 ^ 16) =
      payload.take (payload.length % 2 ^ 16) := by
    rw [channelData, show (4 : ℕ) = 2 + 2 from rfl, ← List.drop_drop,
      List.drop_left' (length_toBeBytes 2 _), List.drop_left' (length_toBeBytes 2 _),
      List.take_append_of_le_length hmod]
  have hframe : (channelData channel payload).length = 4 + paddedLen payload.length := by
    rw [channelData_eq, length_encodeTlv]
  simp only [parseChannelData, hkind, hlength, hvalue, hframe]
  rw [if_neg (by omega), if_neg (not_not.mpr hc), if_neg (by omega)]

theorem parseChannelData_channelData {channel : UInt16} {payload : Bytes} (hc : IsChannel channel)
    (hlen : payload.length < 2 ^ 16) :
    parseChannelData (channelData channel payload) = some (channel, payload) := by
  rw [parseChannelData_channelData_mod hc, Nat.mod_eq_of_lt hlen, List.take_length]

theorem parseChannelData_of_lt {raw : Bytes} (h : fromBeBytes (raw.take 2) < 0x4000) :
    parseChannelData raw = none := by
  cases hparse : parseChannelData raw with
  | none => rfl
  | some frame =>
      obtain ⟨hc, hchannel, -⟩ := parseChannelData_eq_some hparse
      have hmin : (0x4000 : ℕ) ≤ frame.1.toNat := hc.1
      rw [hchannel, UInt16.toNat_ofNat', Nat.mod_eq_of_lt (by omega)] at hmin
      omega

theorem parseChannelData_writeHeader {typ : MessageType} (h : typ.value < 0x4000)
    (txid : TransactionId) (n : ℕ) (rest : Bytes) :
    parseChannelData (writeHeader typ txid n ++ rest) = none := by
  apply parseChannelData_of_lt
  rw [writeHeader_append, List.take_left' (length_toBeBytes 2 _),
    fromBeBytes_toBeBytes typ.value.toNat_lt]
  exact h

end Vantablack.Turn
