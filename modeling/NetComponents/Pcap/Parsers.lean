import NetComponents.Library.Exec
import NetComponents.Library.Inet

/-!
# The packet parsers

Each parser narrows the payload that its base class found: the link-layer
header, the IP header, the transport header. A payload is given by its position
in the data; a parser that does not recognise a header returns the position
behind the last byte, and `packets` then returns nothing.
-/

namespace NetComponents.Pcap

open Library

structure Timeval where
  sec : ℕ
  usec : ℕ
  deriving DecidableEq, Repr

namespace PacketInfo.IPVersion

def kUNKNOWN : ℕ := 0
def kIPv4 : ℕ := 4
def kIPv6 : ℕ := 6

end PacketInfo.IPVersion

namespace PacketInfo.IPProto

def kIP : ℕ := 0
def kTCP : ℕ := 6
def kUDP : ℕ := 17

end PacketInfo.IPProto

structure PacketInfo where
  ip : ℕ := PacketInfo.IPVersion.kUNKNOWN
  proto : ℕ := PacketInfo.IPProto.kIP
  ts : Timeval := ⟨0, 0⟩
  srcAddr : String := ""
  srcPort : ℕ := 0
  dstAddr : String := ""
  dstPort : ℕ := 0
  deriving DecidableEq, Repr

structure Packet where
  data : Bytes
  info : PacketInfo
  deriving DecidableEq, Repr

/-- `IParser::payload`: a position in the data and the updated information. -/
abbrev Payload := Bytes → PacketInfo → Exec (ℕ × PacketInfo)

/-- `Raw::packets`, for the payload method of a derived class. -/
def Raw.packets (payload : Payload) (data : Bytes) (ts : Timeval) : Exec (List Packet) := do
  let (p, info) ← payload data { ts := ts }
  if p < data.length then return [⟨data.drop p, info⟩] else return []

def Raw.payload : Payload := fun _ info => return (0, info)

def DLT_NULL : ℤ := 0
def DLT_EN10MB : ℤ := 1
def DLT_RAW : ℤ := 12
def DLT_LOOP : ℤ := 108
def DLT_LINUX_SLL : ℤ := 113

def Datalink.headerSize (datalink : ℤ) (len : ℕ) : ℕ :=
  if datalink = DLT_RAW then 0
  else if datalink = DLT_NULL ∨ datalink = DLT_LOOP then 4
  else if datalink = DLT_EN10MB then 14
  else if datalink = DLT_LINUX_SLL then 16
  else len

def Datalink.payload (datalink : ℤ) : Payload := fun data info => do
  let (p, info) ← Raw.payload data info
  let offset := Datalink.headerSize datalink data.length
  if p + offset < data.length then return (p + offset, info)
  else return (data.length, info)

/-- `IP::payload`. An IPv4 header is as long as its `ihl` field says. -/
def IP.payload (datalink : ℤ) : Payload := fun data info => do
  let (p, info) ← Datalink.payload datalink data info
  if p + 20 < data.length then
    let b ← readNat data p 1
    let ihl := b % 16
    let version := b / 16
    if version = 4 then
      let offset := ihl * 4
      if p + offset < data.length then
        let protocol ← readNat data (p + 9) 1
        let saddr ← read data (p + 12) 4
        let daddr ← read data (p + 16) 4
        return (p + offset, { info with
          ip := version, proto := protocol
          srcAddr := inetNtop4 saddr, dstAddr := inetNtop4 daddr })
      else return (data.length, info)
    else if version = 6 then
      let offset := 40
      if p + offset < data.length then
        let nxt ← readNat data (p + 6) 1
        let src ← read data (p + 8) 16
        let dst ← read data (p + 24) 16
        return (p + offset, { info with
          ip := version, proto := nxt
          srcAddr := inetNtop6 src, dstAddr := inetNtop6 dst })
      else return (data.length, info)
    else return (data.length, info)
  else return (data.length, info)

def UDP.payload (datalink : ℤ) : Payload := fun data info => do
  let (p, info) ← IP.payload datalink data info
  if p + 8 < data.length then
    let len ← readNat data (p + 4) 2
    if p + swap16 len ≤ data.length then
      let source ← readNat data p 2
      let dest ← readNat data (p + 2) 2
      return (p + 8, { info with srcPort := swap16 source, dstPort := swap16 dest })
    else return (data.length, info)
  else return (data.length, info)

def TCP.payload (datalink : ℤ) : Payload := fun data info => do
  let (p, info) ← IP.payload datalink data info
  if p + 20 < data.length then
    let b ← readNat data (p + 12) 1
    let offset := b / 16 * 4
    if p + offset < data.length then
      let sport ← readNat data p 2
      let dport ← readNat data (p + 2) 2
      return (p + offset, { info with srcPort := swap16 sport, dstPort := swap16 dport })
    else return (data.length, info)
  else return (data.length, info)

/-- `Smart::payload`: parse again with the parser of the transport protocol. -/
def Smart.payload (datalink : ℤ) : Payload := fun data info => do
  let (p, info) ← IP.payload datalink data info
  if info.proto = PacketInfo.IPProto.kTCP then TCP.payload datalink data info
  else if info.proto = PacketInfo.IPProto.kUDP then UDP.payload datalink data info
  else return (p, info)

/-- The classes with a payload method of their own. -/
inductive Parser where
  | raw
  | datalink
  | ip
  | tcp
  | udp
  | smart
  deriving DecidableEq, Repr

/-- The payload method of a parser, constructed for a link layer. -/
def Parser.payload (datalink : ℤ) : Parser → Payload
  | .raw => Raw.payload
  | .datalink => Datalink.payload datalink
  | .ip => IP.payload datalink
  | .tcp => TCP.payload datalink
  | .udp => UDP.payload datalink
  | .smart => Smart.payload datalink

/-- A payload method that never looks outside the data and stays inside it. -/
def Payload.Sound (payload : Payload) : Prop :=
  ∀ data info, ∃ p info', payload data info = .ok (p, info') ∧ p ≤ data.length

/-- A payload method that leaves the time stamp alone. -/
def Payload.KeepsTime (payload : Payload) : Prop :=
  ∀ data info p info', payload data info = .ok (p, info') → info'.ts = info.ts

/-- What every payload method gives: a position in the data or at their end, and the time stamp
that it has been given. -/
def Payload.Gives (payload : Payload) : Prop :=
  ∀ data info, ∃ p info', payload data info = .ok (p, info') ∧ p ≤ data.length ∧
    info'.ts = info.ts

theorem Payload.Gives.sound {payload : Payload} (h : payload.Gives) : payload.Sound := by
  intro data info
  obtain ⟨p, info', hpayload, hp, -⟩ := h data info
  exact ⟨p, info', hpayload, hp⟩

theorem Payload.Gives.keepsTime {payload : Payload} (h : payload.Gives) : payload.KeepsTime := by
  intro data info p info' hpayload
  obtain ⟨q, given, hgiven, -, hts⟩ := h data info
  cases hgiven.symm.trans hpayload
  exact hts

theorem Raw.payload_gives : Payload.Gives Raw.payload := by
  intro data info
  exact ⟨0, info, rfl, Nat.zero_le _, rfl⟩

theorem Datalink.payload_gives (datalink : ℤ) : Payload.Gives (Datalink.payload datalink) := by
  intro data info
  unfold Datalink.payload Raw.payload
  simp only [ok_bind, pure_ok, Nat.zero_add]
  split_ifs with h
  · exact ⟨_, _, rfl, h.le, rfl⟩
  · exact ⟨_, _, rfl, le_rfl, rfl⟩

theorem IP.payload_gives (datalink : ℤ) : Payload.Gives (IP.payload datalink) := by
  intro data info
  obtain ⟨p, info', hbase, hp, hts⟩ := Datalink.payload_gives datalink data info
  unfold IP.payload
  simp only [hbase, ok_bind, pure_ok]
  by_cases hlen : p + 20 < data.length
  · rw [if_pos hlen, readNat_ok (by omega)]
    simp only [ok_bind]
    split_ifs with hv4 hfits4 hv6 hfits6
    · rw [readNat_ok (by omega), read_ok (by omega), read_ok (by omega)]
      exact ⟨_, _, rfl, hfits4.le, hts⟩
    · exact ⟨_, _, rfl, le_rfl, hts⟩
    · rw [readNat_ok (by omega), read_ok (by omega), read_ok (by omega)]
      exact ⟨_, _, rfl, hfits6.le, hts⟩
    · exact ⟨_, _, rfl, le_rfl, hts⟩
    · exact ⟨_, _, rfl, le_rfl, hts⟩
  · rw [if_neg hlen]
    exact ⟨_, _, rfl, le_rfl, hts⟩

theorem UDP.payload_gives (datalink : ℤ) : Payload.Gives (UDP.payload datalink) := by
  intro data info
  obtain ⟨p, info', hbase, hp, hts⟩ := IP.payload_gives datalink data info
  unfold UDP.payload
  simp only [hbase, ok_bind, pure_ok]
  by_cases hlen : p + 8 < data.length
  · rw [if_pos hlen, readNat_ok (by omega)]
    simp only [ok_bind]
    split_ifs with hfits
    · rw [readNat_ok (by omega), readNat_ok (by omega)]
      exact ⟨_, _, rfl, hlen.le, hts⟩
    · exact ⟨_, _, rfl, le_rfl, hts⟩
  · rw [if_neg hlen]
    exact ⟨_, _, rfl, le_rfl, hts⟩

theorem TCP.payload_gives (datalink : ℤ) : Payload.Gives (TCP.payload datalink) := by
  intro data info
  obtain ⟨p, info', hbase, hp, hts⟩ := IP.payload_gives datalink data info
  unfold TCP.payload
  simp only [hbase, ok_bind, pure_ok]
  by_cases hlen : p + 20 < data.length
  · rw [if_pos hlen, readNat_ok (by omega)]
    simp only [ok_bind]
    split_ifs with hfits
    · rw [readNat_ok (by omega), readNat_ok (by omega)]
      exact ⟨_, _, rfl, hfits.le, hts⟩
    · exact ⟨_, _, rfl, le_rfl, hts⟩
  · rw [if_neg hlen]
    exact ⟨_, _, rfl, le_rfl, hts⟩

theorem Smart.payload_gives (datalink : ℤ) : Payload.Gives (Smart.payload datalink) := by
  intro data info
  obtain ⟨p, info', hbase, hp, hts⟩ := IP.payload_gives datalink data info
  unfold Smart.payload
  rw [hbase]
  simp only [ok_bind, pure_ok]
  rw [← hts]
  split_ifs with htcp hudp
  · exact TCP.payload_gives datalink data info'
  · exact UDP.payload_gives datalink data info'
  · exact ⟨p, info', rfl, hp, rfl⟩

theorem Parser.payload_gives (parser : Parser) (datalink : ℤ) :
    Payload.Gives (parser.payload datalink) := by
  cases parser with
  | raw => exact Raw.payload_gives
  | datalink => exact Datalink.payload_gives datalink
  | ip => exact IP.payload_gives datalink
  | tcp => exact TCP.payload_gives datalink
  | udp => exact UDP.payload_gives datalink
  | smart => exact Smart.payload_gives datalink

/-- A sound payload method delivers nothing or what stands behind its position. -/
theorem Payload.Sound.packets {payload : Payload} (h : Payload.Sound payload) (data : Bytes)
    (ts : Timeval) :
    Raw.packets payload data ts = .ok [] ∨
    ∃ packet, Raw.packets payload data ts = .ok [packet] ∧ packet.data ≠ [] ∧
      packet.data <:+ data := by
  obtain ⟨p, info, hpayload, hp⟩ := h data { ts := ts }
  unfold Raw.packets
  rw [hpayload]
  simp only [ok_bind, pure_ok]
  by_cases hlt : p < data.length
  · right
    refine ⟨⟨data.drop p, info⟩, by rw [if_pos hlt], ?_, List.drop_suffix p data⟩
    simpa using hlt
  · left
    rw [if_neg hlt]

/-- On every frame and every link layer, no parser looks outside the frame; the
position it returns lies in the frame or at its end, and a packet holds the rest
of the frame from some position on. -/
theorem Parser.stays_inside (parser : Parser) (datalink : ℤ) (data : Bytes) :
    (∀ info, ∃ p info', parser.payload datalink data info = .ok (p, info') ∧ p ≤ data.length) ∧
    ∀ ts, Raw.packets (parser.payload datalink) data ts = .ok [] ∨
      ∃ packet, Raw.packets (parser.payload datalink) data ts = .ok [packet] ∧
        packet.data ≠ [] ∧ packet.data <:+ data := by
  have hsound := (parser.payload_gives datalink).sound
  constructor
  · intro info
    exact hsound data info
  · intro ts
    exact hsound.packets data ts

end NetComponents.Pcap
