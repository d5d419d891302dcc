import NetComponents.Pcap.Parsers

/-!
# Writing IP packets

`IPPacket` puts a link-layer header, an IP header and a UDP header in front of
the data. Header fields hold the numbers that the writer stores on a
little-endian host, so the byte-order conversions are those of the source.
-/

namespace NetComponents.Pcap

open Library

/-- `inet_pton` for the two address families. -/
structure Pton where
  ipv4 : String → Option (Vector UInt8 4)
  ipv6 : String → Option (Vector UInt8 16)

def AF_INET : ℤ := 2
def AF_INET6 : ℤ := 10
def IPPROTO_TCP : ℤ := 6
def IPPROTO_UDP : ℤ := 17

structure EtherHeader where
  dhost : Bytes
  shost : Bytes
  etherType : ℕ

def EtherHeader.bytes (h : EtherHeader) : Bytes := h.dhost ++ h.shost ++ le 2 h.etherType

structure IPHdr where
  ihl : ℕ
  version : ℕ
  tos : ℕ
  totLen : ℕ
  id : ℕ
  fragOff : ℕ
  ttl : ℕ
  protocol : ℕ
  check : ℕ
  saddr : Vector UInt8 4
  daddr : Vector UInt8 4

def IPHdr.bytes (h : IPHdr) : Bytes :=
  le 1 (h.version * 16 + h.ihl) ++ le 1 h.tos ++ le 2 h.totLen ++ le 2 h.id ++ le 2 h.fragOff ++
    le 1 h.ttl ++ le 1 h.protocol ++ le 2 h.check ++ h.saddr.toList ++ h.daddr.toList

structure IP6Hdr where
  flow : ℕ
  plen : ℕ
  nxt : ℕ
  hlim : ℕ
  src : Vector UInt8 16
  dst : Vector UInt8 16

def IP6Hdr.bytes (h : IP6Hdr) : Bytes :=
  le 4 h.flow ++ le 2 h.plen ++ le 1 h.nxt ++ le 1 h.hlim ++ h.src.toList ++ h.dst.toList

structure UDPHdr where
  source : ℕ
  dest : ℕ
  len : ℕ
  check : ℕ

def UDPHdr.bytes (h : UDPHdr) : Bytes := le 2 h.source ++ le 2 h.dest ++ le 2 h.len ++ le 2 h.check

/-- The IP header of either family. -/
inductive NetHdr where
  | v4 (h : IPHdr)
  | v6 (h : IP6Hdr)

def NetHdr.bytes : NetHdr → Bytes
  | .v4 h => h.bytes
  | .v6 h => h.bytes

/-- The constructor arguments. The MAC addresses are arrays of 16-bit words, of
which the writer copies the first six bytes. -/
structure IPPacketArgs where
  datalink : ℤ
  af : ℤ
  proto : ℤ
  srcAddr : String
  srcPort : UInt16
  dstAddr : String
  dstPort : UInt16
  data : Bytes
  srcMAC : Option (Vector UInt16 6) := none
  dstMAC : Option (Vector UInt16 6) := none

/-- The header bytes in the buffer, and the data behind them. -/
structure IPPacket where
  buf : Bytes
  data : Bytes
  deriving DecidableEq, Repr

namespace IPPacket

def serialize (p : IPPacket) : Bytes := p.buf ++ p.data

def size (p : IPPacket) : ℕ := p.buf.length + p.data.length

/-- Add up the big-endian 16-bit words in a `uint32_t`; a last odd byte counts as
the high byte of a word. -/
def sumWords (summ : ℕ) : Bytes → ℕ
  | lo :: hi :: rest => sumWords ((summ + swap16 (readLE [lo, hi])) % 2 ^ 32) rest
  | [b] => (summ + swap16 b.toNat) % 2 ^ 32
  | [] => summ

/-- `while (summ >> 16) summ = (summ & 0xffff) + (summ >> 16)` -/
def foldCarry (summ : ℕ) : ℕ :=
  if summ / 65536 = 0 then summ else foldCarry (summ % 65536 + summ / 65536)
termination_by summ
decreasing_by omega

def calcCheckSumm (data : Bytes) : ℕ :=
  swap16 ((2 ^ 32 - 1 - foldCarry (sumWords 0 data)) % 65536)

/-- The counter of written packets after `++seqno`. -/
def flowSeq (seqno : ℕ) : ℕ := (seqno + 1) % 2 ^ 32

def srcMAC : Vector UInt16 6 := #v[0x00, 0x16, 0x3e, 0xd6, 0xfa, 0xfb]
def dstMAC : Vector UInt16 6 := #v[0x00, 0x1f, 0x12, 0xb9, 0xb7, 0xf0]

/-- `memcpy(.., mac, ETH_ALEN)` -/
def copyMAC (mac : Vector UInt16 6) : Bytes := (mac.toList.flatMap fun w => le 2 w.toNat).take 6

def writeDataLink (a : IPPacketArgs) : Exec Bytes :=
  if a.datalink = DLT_RAW then .ok []
  else if a.datalink = DLT_NULL ∨ a.datalink = DLT_LOOP then
    let hdr := if a.af = AF_INET then 2 else if a.af = AF_INET6 then 24 else 0
    .ok (le 4 (if a.datalink = DLT_LOOP then swap32 hdr else hdr))
  else if a.datalink = DLT_EN10MB then
    .ok (EtherHeader.bytes {
      dhost := copyMAC (a.dstMAC.getD dstMAC)
      shost := copyMAC (a.srcMAC.getD srcMAC)
      etherType := swap16 (
        if a.af = AF_INET then 0x0800 else if a.af = AF_INET6 then 0x86dd else 0x9000) })
  else .error (.exception ("IPPacket: unsupported datalink=" ++ toString a.datalink))

def writeIPHeader (pton : Pton) (seqno : ℕ) (a : IPPacketArgs) (protocol : ℤ) : Exec NetHdr :=
  if a.af = AF_INET then
    match pton.ipv4 a.srcAddr, pton.ipv4 a.dstAddr with
    | none, _ => .error (.exception ("IPPacket: bad IPv4 src address: " ++ a.srcAddr))
    | some _, none => .error (.exception ("IPPacket: bad IPv4 dst address: " ++ a.dstAddr))
    | some saddr, some daddr => .ok (.v4 {
        ihl := 5, version := 4, tos := 0, totLen := 0
        id := swap16 (flowSeq seqno % 65536)
        fragOff := 0, ttl := 0xff, protocol := (protocol % 256).toNat, check := 0
        saddr := saddr, daddr := daddr })
  else if a.af = AF_INET6 then
    match pton.ipv6 a.srcAddr, pton.ipv6 a.dstAddr with
    | none, _ => .error (.exception ("IPPacket: bad IPv6 src address: " ++ a.srcAddr))
    | some _, none => .error (.exception ("IPPacket: bad IPv6 dst address: " ++ a.dstAddr))
    | some src, some dst => .ok (.v6 {
        -- the bit-fields tc1:4, version:4, tc2:4, flow:20, from the low bits up
        flow := 6 * 2 ^ 4 + swap32 (flowSeq seqno % 2 ^ 24) % 2 ^ 20 * 2 ^ 12
        plen := 0, nxt := (protocol % 256).toNat, hlim := 32, src := src, dst := dst })
  else .error (.exception ("IPPacket: unsupported address family=" ++ toString a.af))

/-- The bytes of the pseudo header. The IPv6 one has no length. -/
def pseudo (udp : UDPHdr) : NetHdr → Bytes
  | .v4 h => h.saddr.toList ++ h.daddr.toList ++ le 1 0 ++ le 1 h.protocol ++ le 2 udp.len
  | .v6 h => h.src.toList ++ h.dst.toList ++ le 4 h.nxt ++ le 4 0

/-- `writeUDPHeader`. The three sums are added up in a `uint16_t`. -/
def writeUDPHeader (a : IPPacketArgs) (ip : NetHdr) : UDPHdr :=
  let udp : UDPHdr := {
    source := swap16 a.srcPort.toNat
    dest := swap16 a.dstPort.toNat
    len := swap16 ((8 + a.data.length) % 65536)
    check := 0 }
  let u := swap16 (calcCheckSumm (pseudo udp ip))
  let u := (u + swap16 (calcCheckSumm udp.bytes)) % 65536
  let u := (u + swap16 (calcCheckSumm a.data)) % 65536
  let check := swap16 (u % 65536 + u / 65536)
  { udp with check := if check = 0 then swap16 1 else check }

def writeProtoHeader (a : IPPacketArgs) (protocol : ℤ) (ip : NetHdr) : Exec UDPHdr :=
  if protocol = IPPROTO_UDP then .ok (writeUDPHeader a ip)
  else if protocol = IPPROTO_TCP then
    .error (.exception "IPPacket: IPPROTO_TCP not implemented yet")
  else .error (.exception ("IPPacket: unsupported IP protocol=" ++ toString protocol))

/-- `finalize`, where `total` is the size of the packet from the IP header on. -/
def finalize (total : ℕ) : NetHdr → NetHdr
  | .v4 h =>
    let h := { h with totLen := swap16 (total % 65536) }
    .v4 { h with check := calcCheckSumm h.bytes }
  | .v6 h => .v6 { h with plen := swap16 (total % 65536) }

/-- The constructor. It writes UDP whatever protocol was asked for. -/
def create (pton : Pton) (seqno : ℕ) (a : IPPacketArgs) : Exec IPPacket := do
  let protocol := IPPROTO_UDP
  let link ← writeDataLink a
  let ip ← writeIPHeader pton seqno a protocol
  let udp ← writeProtoHeader a protocol ip
  let total := ip.bytes.length + udp.bytes.length + a.data.length
  return ⟨link ++ (finalize total ip).bytes ++ udp.bytes, a.data⟩

end IPPacket
end NetComponents.Pcap
