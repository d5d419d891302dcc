import NetComponents.Pcap.Parsers

/-!
# What the transport parsers deliver

The UDP and the TCP parser take what stands behind an IP header for a header of
their own and deliver the rest of the frame. The first part says where the
reported fields come from: which header fields were read and which bounds were
checked. The second part is about frames that end before the captured bytes do.
-/

namespace NetComponents.Pcap

open Library

/-- The parsers of a transport protocol. -/
inductive Transport where
  | udp
  | tcp
  deriving DecidableEq, Repr

def Transport.payload (datalink : ℤ) : Transport → Payload
  | .udp => UDP.payload datalink
  | .tcp => TCP.payload datalink

def Transport.protocol : Transport → ℕ
  | .udp => PacketInfo.IPProto.kUDP
  | .tcp => PacketInfo.IPProto.kTCP

section Accepted

variable (data : Bytes)

/-- The fields of `info` are those of the IP header at `off`, which ends at `p`. -/
inductive IPHeaderAt (off p : ℕ) (info : PacketInfo) : Prop where
  | v4 (b : ℕ) (saddr daddr : Bytes) (hroom : off + 20 < data.length)
      (hb : readNat data off 1 = .ok b) (hversion : b / 16 = 4) (hp : p = off + b % 16 * 4)
      (hip : info.ip = 4) (hproto : readNat data (off + 9) 1 = .ok info.proto)
      (hsaddr : read data (off + 12) 4 = .ok saddr) (hsrc : info.srcAddr = inetNtop4 saddr)
      (hdaddr : read data (off + 16) 4 = .ok daddr) (hdst : info.dstAddr = inetNtop4 daddr)
  | v6 (b : ℕ) (src dst : Bytes) (hroom : off + 20 < data.length)
      (hb : readNat data off 1 = .ok b) (hversion : b / 16 = 6) (hp : p = off + 40)
      (hip : info.ip = 6) (hproto : readNat data (off + 6) 1 = .ok info.proto)
      (hsaddr : read data (off + 8) 16 = .ok src) (hsrc : info.srcAddr = inetNtop6 src)
      (hdaddr : read data (off + 24) 16 = .ok dst) (hdst : info.dstAddr = inetNtop6 dst)

/-- The ports of `info` are those of the header at `p`, behind which the payload
starts at `q`. -/
inductive TransportHeaderAt (p q : ℕ) (info : PacketInfo) : Transport → Prop where
  | udp (len source dest : ℕ) (hlen : readNat data (p + 4) 2 = .ok len)
      (hfits : p + swap16 len ≤ data.length) (hq : q = p + 8)
      (hsource : readNat data p 2 = .ok source) (hsrc : info.srcPort = swap16 source)
      (hdest : readNat data (p + 2) 2 = .ok dest) (hdst : info.dstPort = swap16 dest) :
      TransportHeaderAt p q info .udp
  | tcp (b sport dport : ℕ) (hroom : p + 20 < data.length)
      (hb : readNat data (p + 12) 1 = .ok b) (hq : q = p + b / 16 * 4)
      (hsport : readNat data p 2 = .ok sport) (hsrc : info.srcPort = swap16 sport)
      (hdport : readNat data (p + 2) 2 = .ok dport) (hdst : info.dstPort = swap16 dport) :
      TransportHeaderAt p q info .tcp

theorem Datalink.payload_cases (datalink : ℤ) (info : PacketInfo) :
    Datalink.payload datalink data info = .ok (data.length, info) ∨
    Datalink.payload datalink data info =
      .ok (Datalink.headerSize datalink data.length, info) := by
  unfold Datalink.payload Raw.payload
  simp only [ok_bind, pure_ok, Nat.zero_add]
  split_ifs
  · exact .inr rfl
  · exact .inl rfl

/-- The IP parser finds no header, or it reports the one behind the link layer. -/
theorem IP.payload_cases (datalink : ℤ) (info : PacketInfo) :
    IP.payload datalink data info = .ok (data.length, info) ∨
    ∃ p info', IP.payload datalink data info = .ok (p, info') ∧ info'.ts = info.ts ∧
      IPHeaderAt data (Datalink.headerSize datalink data.length) p info' := by
  unfold IP.payload
  rcases Datalink.payload_cases data datalink info with h | h
  · rw [h]
    left
    simp only [ok_bind, pure_ok]
    rw [if_neg (by omega)]
  · rw [h]
    simp only [ok_bind, pure_ok]
    set off := Datalink.headerSize datalink data.length
    by_cases hroom : off + 20 < data.length
    · have hb : readNat data off 1 = .ok _ := readNat_ok (by omega)
      rw [if_pos hroom, hb]
      simp only [ok_bind]
      split_ifs with hv4 hfits4 hv6 hfits6
      · rw [readNat_ok (by omega), read_ok (by omega), read_ok (by omega)]
        exact .inr ⟨_, _, rfl, rfl, .v4 _ _ _ hroom hb hv4 rfl hv4 (readNat_ok (by omega))
          (read_ok (by omega)) rfl (read_ok (by omega)) rfl⟩
      · exact .inl rfl
      · rw [readNat_ok (by omega), read_ok (by omega), read_ok (by omega)]
        exact .inr ⟨_, _, rfl, rfl, .v6 _ _ _ hroom hb hv6 rfl hv6 (readNat_ok (by omega))
          (read_ok (by omega)) rfl (read_ok (by omega)) rfl⟩
      · exact .inl rfl
      · exact .inl rfl
    · rw [if_neg hroom]
      exact .inl rfl

variable {data} in
theorem IPHeaderAt.withPorts {off p : ℕ} {info : PacketInfo} (h : IPHeaderAt data off p info)
    (srcPort dstPort : ℕ) :
    IPHeaderAt data off p { info with srcPort := srcPort, dstPort := dstPort } := by
  cases h with
  | v4 b saddr daddr hroom hb hversion hp hip hproto hsaddr hsrc hdaddr hdst =>
    exact .v4 b saddr daddr hroom hb hversion hp hip hproto hsaddr hsrc hdaddr hdst
  | v6 b src dst hroom hb hversion hp hip hproto hsaddr hsrc hdaddr hdst =>
    exact .v6 b src dst hroom hb hversion hp hip hproto hsaddr hsrc hdaddr hdst

theorem UDP.payload_cases (datalink : ℤ) (info : PacketInfo) :
    (∃ info', UDP.payload datalink data info = .ok (data.length, info')) ∨
    ∃ p q info', UDP.payload datalink data info = .ok (q, info') ∧ info'.ts = info.ts ∧
      IPHeaderAt data (Datalink.headerSize datalink data.length) p info' ∧
      TransportHeaderAt data p q info' .udp := by
  unfold UDP.payload
  rcases IP.payload_cases data datalink info with h | ⟨p, info', h, hts, hip⟩
  · rw [h]
    left
    simp only [ok_bind, pure_ok]
    rw [if_neg (by omega)]
    exact ⟨_, rfl⟩
  · rw [h]
    simp only [ok_bind, pure_ok]
    by_cases hroom : p + 8 < data.length
    · have hlen : readNat data (p + 4) 2 = .ok _ := readNat_ok (by omega)
      rw [if_pos hroom, hlen]
      simp only [ok_bind]
      split_ifs with hfits
      · rw [readNat_ok (by omega), readNat_ok (by omega)]
        exact .inr ⟨p, _, _, rfl, hts, hip.withPorts _ _, .udp _ _ _ hlen hfits rfl
          (readNat_ok (by omega)) rfl (readNat_ok (by omega)) rfl⟩
      · exact .inl ⟨_, rfl⟩
    · rw [if_neg hroom]
      exact .inl ⟨_, rfl⟩

theorem TCP.payload_cases (datalink : ℤ) (info : PacketInfo) :
    (∃ info', TCP.payload datalink data info = .ok (data.length, info')) ∨
    ∃ p q info', TCP.payload datalink data info = .ok (q, info') ∧ info'.ts = info.ts ∧
      IPHeaderAt data (Datalink.headerSize datalink data.length) p info' ∧
      TransportHeaderAt data p q info' .tcp := by
  unfold TCP.payload
  rcases IP.payload_cases data datalink info with h | ⟨p, info', h, hts, hip⟩
  · rw [h]
    left
    simp only [ok_bind, pure_ok]
    rw [if_neg (by omega)]
    exact ⟨_, rfl⟩
  · rw [h]
    simp only [ok_bind, pure_ok]
    by_cases hroom : p + 20 < data.length
    · have hb : readNat data (p + 12) 1 = .ok _ := readNat_ok (by omega)
      rw [if_pos hroom, hb]
      simp only [ok_bind]
      split_ifs with hfits
      · rw [readNat_ok (by omega), readNat_ok (by omega)]
        exact .inr ⟨p, _, _, rfl, hts, hip.withPorts _ _, .tcp _ _ _ hroom hb rfl
          (readNat_ok (by omega)) rfl (readNat_ok (by omega)) rfl⟩
      · exact .inl ⟨_, rfl⟩
    · rw [if_neg hroom]
      exact .inl ⟨_, rfl⟩

theorem Transport.payload_cases (t : Transport) (datalink : ℤ) (info : PacketInfo) :
    (∃ info', t.payload datalink data info = .ok (data.length, info')) ∨
    ∃ p q info', t.payload datalink data info = .ok (q, info') ∧ info'.ts = info.ts ∧
      IPHeaderAt data (Datalink.headerSize datalink data.length) p info' ∧
      TransportHeaderAt data p q info' t := by
  cases t with
  | udp => exact UDP.payload_cases data datalink info
  | tcp => exact TCP.payload_cases data datalink info

/-- A packet that a transport parser delivers is the rest of the frame behind what
stands at the place of a transport header, behind an IP header of version 4 or 6.
Version, protocol number, addresses and ports are the ones that stand there; no
other field of the headers is looked at but the lengths that place them. -/
theorem Transport.delivers_what_is_there (t : Transport) (datalink : ℤ) (data : Bytes)
    (ts : Timeval) (packet : Packet)
    (h : Raw.packets (t.payload datalink) data ts = .ok [packet]) :
    ∃ p q, IPHeaderAt data (Datalink.headerSize datalink data.length) p packet.info ∧
      TransportHeaderAt data p q packet.info t ∧ q < data.length ∧
      packet.data = data.drop q ∧ packet.info.ts = ts := by
  unfold Raw.packets at h
  rcases t.payload_cases data datalink { ts := ts } with
    ⟨info', hpayload⟩ | ⟨p, q, info', hpayload, hts, hip, htransport⟩
  · simp [hpayload] at h
  · rw [hpayload] at h
    simp only [ok_bind, pure_ok] at h
    by_cases hq : q < data.length
    · rw [if_pos hq] at h
      cases h
      exact ⟨p, q, hip, htransport, hq, rfl, hts⟩
    · rw [if_neg hq] at h
      cases h

end Accepted

section Foreign

/-- An IPv4 header of 20 bytes in which only the named fields matter. -/
def ipv4Header (ihl fragment protocol : UInt8) : Bytes :=
  [0x40 + ihl, 0, 0, 0, 0, 0, 0, fragment, 64, protocol, 0, 0, 10, 0, 0, 1, 10, 0, 0, 2]

def ipv6Header (nxt : UInt8) : Bytes :=
  [0x60, 0, 0, 0, 0, 0, nxt, 64] ++ List.replicate 32 0

def udpHeader (len : UInt8) : Bytes := [0x13, 0x88, 0x13, 0x89, 0, len, 0, 0]

def tcpHeader (off : UInt8) : Bytes :=
  [0x13, 0x88, 0x13, 0x89, 0, 0, 0, 0, 0, 0, 0, 0, 16 * off, 0x10, 0, 0, 0, 0, 0, 0]

/-- The parser delivers a packet from the frame. -/
def Transport.delivers (t : Transport) (datalink : ℤ) (data : Bytes) : Bool :=
  match Raw.packets (t.payload datalink) data ⟨0, 0⟩ with
  | .ok [_] => true
  | _ => false

theorem Transport.delivers_what_is_there_datagram :
    ∃ packet, Raw.packets (Transport.udp.payload DLT_RAW)
        (ipv4Header 5 0 17 ++ udpHeader 9 ++ [7]) ⟨1, 2⟩ = .ok [packet] ∧
      ∃ p q, IPHeaderAt (ipv4Header 5 0 17 ++ udpHeader 9 ++ [7]) 0 p packet.info ∧
        TransportHeaderAt (ipv4Header 5 0 17 ++ udpHeader 9 ++ [7]) p q packet.info .udp := by
  have h : Raw.packets (Transport.udp.payload DLT_RAW)
      (ipv4Header 5 0 17 ++ udpHeader 9 ++ [7]) ⟨1, 2⟩ =
        .ok [⟨[7], ⟨4, 17, ⟨1, 2⟩, "10.0.0.1", 5000, "10.0.0.2", 5001⟩⟩] := by
    decide +kernel
  obtain ⟨p, q, hip, htransport, -⟩ := Transport.delivers_what_is_there .udp DLT_RAW _ _ _ h
  exact ⟨_, h, p, q, hip, htransport⟩

/-- Frames of which the parsers deliver a packet: another protocol, an IP header of
16 bytes (the ports then stand in the destination address), a later fragment, a
transport header below its minimum; over IPv6 another next header. -/
theorem Transport.delivers_foreign_frames :
    Transport.udp.delivers DLT_RAW (ipv4Header 5 0 6 ++ udpHeader 9 ++ [7]) ∧
    Transport.udp.delivers DLT_RAW (ipv4Header 4 0 17 ++ (udpHeader 9).drop 4 ++ [7]) ∧
    Transport.udp.delivers DLT_RAW (ipv4Header 5 1 17 ++ udpHeader 9 ++ [7]) ∧
    Transport.udp.delivers DLT_RAW (ipv4Header 5 0 17 ++ udpHeader 7 ++ [7]) ∧
    Transport.udp.delivers DLT_RAW (ipv6Header 6 ++ udpHeader 9 ++ [7]) ∧
    Transport.tcp.delivers DLT_RAW (ipv4Header 5 0 17 ++ tcpHeader 5 ++ [7]) ∧
    Transport.tcp.delivers DLT_RAW (ipv4Header 4 0 6 ++ (tcpHeader 5).drop 4 ++ [7]) ∧
    Transport.tcp.delivers DLT_RAW (ipv4Header 5 1 6 ++ tcpHeader 5 ++ [7]) ∧
    Transport.tcp.delivers DLT_RAW (ipv4Header 5 0 6 ++ tcpHeader 4 ++ [7]) ∧
    Transport.tcp.delivers DLT_RAW (ipv6Header 17 ++ tcpHeader 5 ++ [7]) := by
  decide +kernel

end Foreign

section Padding

/-- The header of a well-formed datagram or segment, for its payload. -/
def Transport.Header (t : Transport) (header payload : Bytes) : Prop :=
  match t with
  | .udp => header.length = 8 ∧ readNat header 4 2 = .ok (swap16 (8 + payload.length))
  | .tcp => ∃ b, readNat header 12 1 = .ok b ∧ 5 ≤ b / 16 ∧ header.length = b / 16 * 4

/-- A well-formed Ethernet frame around an IPv4 packet with a datagram or a segment.
The total length of the IP header is the real length of the packet. -/
structure Frame (t : Transport) where
  ether : Bytes
  ip : Bytes
  transport : Bytes
  payload : Bytes
  ihl : ℕ
  ether_length : ether.length = 14
  ether_type : readNat ether 12 2 = .ok (swap16 0x0800)
  ihl_min : 5 ≤ ihl
  ihl_max : ihl < 16
  ip_length : ip.length = ihl * 4
  ip_version : readNat ip 0 1 = .ok (4 * 16 + ihl)
  ip_total : readNat ip 2 2 = .ok (swap16 (ip.length + transport.length + payload.length))
  total_max : ip.length + transport.length + payload.length < 65536
  ip_protocol : readNat ip 9 1 = .ok t.protocol
  header : t.Header transport payload

namespace Frame

variable {t : Transport} (f : Frame t)

def bytes : Bytes := f.ether ++ (f.ip ++ (f.transport ++ f.payload))

theorem bytes_append (pad : Bytes) :
    f.bytes ++ pad = f.ether ++ (f.ip ++ (f.transport ++ (f.payload ++ pad))) := by
  simp only [bytes, List.append_assoc]

theorem length_bytes_append (pad : Bytes) :
    (f.bytes ++ pad).length =
      14 + f.ip.length + f.transport.length + (f.payload ++ pad).length := by
  simp only [bytes_append, List.length_append, f.ether_length]
  omega

theorem transport_length : 8 ≤ f.transport.length := by
  have hheader := f.header
  cases t with
  | udp => exact hheader.1.ge
  | tcp =>
    obtain ⟨b, -, hmin, hlength⟩ := hheader
    omega

theorem ip_read (pad : Bytes) {off len : ℕ} (h : off + len ≤ f.ip.length) :
    read (f.bytes ++ pad) (14 + off) len = read f.ip off len := by
  rw [bytes_append, ← f.ether_length, read_inside _ h]

theorem ip_readNat (pad : Bytes) {off width : ℕ} (h : off + width ≤ f.ip.length) :
    readNat (f.bytes ++ pad) (14 + off) width = readNat f.ip off width := by
  rw [readNat, readNat, f.ip_read pad h]

theorem ip_start (pad : Bytes) :
    readNat (f.bytes ++ pad) 14 1 = .ok (4 * 16 + f.ihl) := by
  have hip := f.ip_length
  have hmin := f.ihl_min
  have h := f.ip_readNat pad (show 0 + 1 ≤ f.ip.length by omega)
  rw [← f.ip_version, ← h]

theorem transport_readNat (pad : Bytes) {off width : ℕ}
    (h : off + width ≤ f.transport.length) :
    readNat (f.bytes ++ pad) (14 + f.ip.length + off) width = readNat f.transport off width := by
  have hfront : (f.ether ++ f.ip).length = 14 + f.ip.length := by
    rw [List.length_append, f.ether_length]
  rw [bytes_append, ← List.append_assoc, ← hfront, readNat_inside _ h]

theorem transport_start (pad : Bytes) :
    readNat (f.bytes ++ pad) (14 + f.ip.length) 2 = readNat f.transport 0 2 := by
  have hlen := f.transport_length
  have h := f.transport_readNat pad (show 0 + 2 ≤ f.transport.length by omega)
  rw [← h, Nat.add_zero]

/-- The IP header is found behind the 14 bytes of Ethernet, whatever is appended. -/
theorem ip_payload (info : PacketInfo) :
    ∃ info', ∀ pad,
      IP.payload DLT_EN10MB (f.bytes ++ pad) info = .ok (14 + f.ip.length, info') := by
  have hip := f.ip_length
  have hmin := f.ihl_min
  have hmax := f.ihl_max
  have htransport := f.transport_length
  refine ⟨{ info with
    ip := 4, proto := t.protocol
    srcAddr := inetNtop4 (slice f.ip 12 4), dstAddr := inetNtop4 (slice f.ip 16 4) }, ?_⟩
  intro pad
  have hlen := f.length_bytes_append pad
  have hlow : (4 * 16 + f.ihl) % 16 = f.ihl := by omega
  have hhigh : (4 * 16 + f.ihl) / 16 = 4 := by omega
  have hheader : Datalink.headerSize DLT_EN10MB (f.bytes ++ pad).length = 14 := rfl
  unfold IP.payload Datalink.payload Raw.payload
  simp only [ok_bind, pure_ok, hheader, Nat.zero_add]
  rw [if_pos (by omega)]
  simp only [ok_bind]
  rw [if_pos (by omega), f.ip_start pad]
  simp only [ok_bind, hlow, hhigh, if_true]
  rw [if_pos (by omega), f.ip_readNat pad (by omega), f.ip_protocol, f.ip_read pad (by omega),
    read_ok (by omega), f.ip_read pad (by omega), read_ok (by omega), hip]
  rfl

/-- What a transport parser makes of a frame and whatever is appended to it: the payload
starts behind the transport header, if anything stands there. -/
def PayloadBehindHeader (payload : Payload) (info info' : PacketInfo) (pad : Bytes) : Prop :=
  (f.payload ++ pad = [] →
    ∃ info'', payload (f.bytes ++ pad) info = .ok ((f.bytes ++ pad).length, info'')) ∧
  (f.payload ++ pad ≠ [] →
    payload (f.bytes ++ pad) info = .ok (14 + f.ip.length + f.transport.length, info'))

theorem udp_payload (f : Frame .udp) (info : PacketInfo) :
    ∃ info', ∀ pad, f.PayloadBehindHeader (UDP.payload DLT_EN10MB) info info' pad := by
  obtain ⟨ipInfo, hip⟩ := f.ip_payload info
  obtain ⟨hheader, hfield⟩ := f.header
  have hmax := f.total_max
  refine ⟨{ ipInfo with
    srcPort := swap16 (readLE (slice f.transport 0 2))
    dstPort := swap16 (readLE (slice f.transport 2 2)) }, ?_⟩
  intro pad
  have hlen := f.length_bytes_append pad
  unfold PayloadBehindHeader UDP.payload
  rw [hip pad]
  simp only [ok_bind, pure_ok]
  constructor
  · intro hnil
    rw [hnil, List.length_nil] at hlen
    rw [if_neg (by omega)]
    exact ⟨_, rfl⟩
  · intro hne
    have hpos : 0 < (f.payload ++ pad).length := List.length_pos_iff.mpr hne
    have hfits : 14 + f.ip.length + swap16 (swap16 (8 + f.payload.length)) ≤
        (f.bytes ++ pad).length := by
      rw [swap16_swap16 (by omega), hlen, List.length_append]
      omega
    rw [if_pos (by omega), f.transport_readNat pad (by omega), hfield]
    simp only [ok_bind]
    rw [if_pos hfits, f.transport_start pad, readNat_ok (by omega),
      f.transport_readNat pad (by omega), readNat_ok (by omega), hheader]
    rfl

theorem tcp_payload (f : Frame .tcp) (info : PacketInfo) :
    ∃ info', ∀ pad, f.PayloadBehindHeader (TCP.payload DLT_EN10MB) info info' pad := by
  obtain ⟨ipInfo, hip⟩ := f.ip_payload info
  obtain ⟨b, hb, hmin, hheader⟩ := f.header
  refine ⟨{ ipInfo with
    srcPort := swap16 (readLE (slice f.transport 0 2))
    dstPort := swap16 (readLE (slice f.transport 2 2)) }, ?_⟩
  intro pad
  have hlen := f.length_bytes_append pad
  unfold PayloadBehindHeader TCP.payload
  rw [hip pad]
  simp only [ok_bind, pure_ok]
  rw [f.transport_readNat pad (by omega), hb]
  simp only [ok_bind]
  constructor
  · intro hnil
    rw [hnil, List.length_nil] at hlen
    have hend : ¬14 + f.ip.length + b / 16 * 4 < (f.bytes ++ pad).length := by omega
    rw [if_neg hend]
    split_ifs
    · exact ⟨_, rfl⟩
    · exact ⟨_, rfl⟩
  · intro hne
    have hpos : 0 < (f.payload ++ pad).length := List.length_pos_iff.mpr hne
    rw [if_pos (by omega), if_pos (by omega), f.transport_start pad, readNat_ok (by omega),
      f.transport_readNat pad (by omega), readNat_ok (by omega), hheader]
    rfl

theorem transport_payload (info : PacketInfo) :
    ∃ info', ∀ pad, f.PayloadBehindHeader (t.payload DLT_EN10MB) info info' pad := by
  cases t with
  | udp => exact f.udp_payload info
  | tcp => exact f.tcp_payload info

/-- The transport parser delivers everything behind the transport header. -/
theorem packets_append (ts : Timeval) :
    ∃ info, ∀ pad, Raw.packets (t.payload DLT_EN10MB) (f.bytes ++ pad) ts =
      .ok (if f.payload ++ pad = [] then [] else [⟨f.payload ++ pad, info⟩]) := by
  obtain ⟨info', hpayload⟩ := f.transport_payload { ts := ts }
  use info'
  intro pad
  have hlen := f.length_bytes_append pad
  obtain ⟨hempty, hsome⟩ := hpayload pad
  unfold Raw.packets
  by_cases hrest : f.payload ++ pad = []
  · obtain ⟨info'', h⟩ := hempty hrest
    rw [h]
    simp [hrest]
  · have hpos : 0 < (f.payload ++ pad).length := List.length_pos_iff.mpr hrest
    have hdrop : (f.bytes ++ pad).drop (14 + f.ip.length + f.transport.length) =
        f.payload ++ pad := by
      have hfront : (f.ether ++ (f.ip ++ f.transport)).length =
          14 + f.ip.length + f.transport.length := by
        simp only [List.length_append, f.ether_length]
        omega
      have hbytes : f.bytes ++ pad =
          (f.ether ++ (f.ip ++ f.transport)) ++ (f.payload ++ pad) := by
        simp only [bytes, List.append_assoc]
      rw [hbytes, ← hfront, List.drop_left]
    rw [hsome hrest]
    simp only [ok_bind, pure_ok]
    rw [if_pos (by omega), if_neg hrest, hdrop]

end Frame

/-- Whatever is appended to a frame ends up in the delivered data: the packets of the
padded frame are those of the frame only when nothing is appended. -/
theorem Transport.padding_stays_out_iff (t : Transport) (f : Frame t) (pad : Bytes)
    (ts : Timeval) :
    (Raw.packets (t.payload DLT_EN10MB) (f.bytes ++ pad) ts =
        Raw.packets (t.payload DLT_EN10MB) f.bytes ts ∧
      (f.payload = [] → Raw.packets (t.payload DLT_EN10MB) (f.bytes ++ pad) ts = .ok [])) ↔
      pad = [] := by
  obtain ⟨info, hpackets⟩ := f.packets_append ts
  have hbare := hpackets []
  simp only [List.append_nil] at hbare
  rw [hpackets pad, hbare]
  constructor
  · rintro ⟨hsame, -⟩
    by_contra hpad
    have hne : f.payload ++ pad ≠ [] := by simp [hpad]
    rw [if_neg hne] at hsame
    split_ifs at hsame with hpayload
    · simp at hsame
    · simp [hpad] at hsame
  · rintro rfl
    simp

/-- An acknowledgement without payload: 54 bytes, which Ethernet pads to 60. -/
def bareAck : Frame .tcp where
  ether := List.replicate 12 0 ++ [8, 0]
  ip := [0x45, 0, 0, 40, 0, 0, 0, 0, 64, 6, 0, 0, 10, 0, 0, 1, 10, 0, 0, 2]
  transport := tcpHeader 5
  payload := []
  ihl := 5
  ether_length := rfl
  ether_type := by decide
  ihl_min := by decide
  ihl_max := by decide
  ip_length := rfl
  ip_version := by decide
  ip_total := by decide
  total_max := by decide
  ip_protocol := by decide
  header := ⟨0x50, by decide, by decide, rfl⟩

theorem Transport.padding_is_delivered :
    Raw.packets (Transport.tcp.payload DLT_EN10MB) bareAck.bytes ⟨1, 2⟩ = .ok [] ∧
    Raw.packets (Transport.tcp.payload DLT_EN10MB) (bareAck.bytes ++ List.replicate 6 0) ⟨1, 2⟩ =
      .ok [⟨List.replicate 6 0, ⟨4, 6, ⟨1, 2⟩, "10.0.0.1", 5000, "10.0.0.2", 5001⟩⟩] := by
  decide +kernel

end Padding

end NetComponents.Pcap
