import NetComponents.Library.OnesComplement
import NetComponents.Pcap.ReadBack

/-!
# The checksums of written frames

`calcCheckSumm` is the complement of a one's-complement sum. The header checksum of IPv4 is one
such value. The UDP checksum is put together from three of them in a `uint16_t`, where the carries
get lost; and the IPv6 header counts itself in its payload length.
-/

namespace NetComponents.Pcap

open Library

namespace IPPacket

theorem foldCarry_eq (summ : ℕ) : foldCarry summ = onesResidue summ := by
  induction summ using foldCarry.induct with
  | case1 summ h =>
    rw [foldCarry, if_pos h, onesResidue_of_le (by omega)]
  | case2 summ h ih =>
    rw [foldCarry, if_neg h, ih, onesResidue_fold]

/-- Loaded on a little-endian host and swapped, two bytes are a big-endian word. -/
theorem swap16_word (hi lo : UInt8) : swap16 (readLE [hi, lo]) = hi.toNat * 256 + lo.toNat := by
  have hhi := hi.toNat_lt
  have hlo := lo.toNat_lt
  simp only [readLE_cons, readLE_nil, swap16]
  omega

theorem swap16_byte (b : UInt8) : swap16 b.toNat = b.toNat * 256 := by
  have hb := b.toNat_lt
  simp only [swap16]
  omega

theorem sumWords_eq {summ : ℕ} {data : Bytes} (h : summ + (paddedWords data).sum < 2 ^ 32) :
    sumWords summ data = summ + (paddedWords data).sum := by
  induction data using paddedWords.induct generalizing summ with
  | case1 hi lo rest ih =>
    rw [paddedWords_cons_cons, List.sum_cons, ← Nat.add_assoc] at h ⊢
    have hfirst : summ + (hi.toNat * 256 + lo.toNat) < 2 ^ 32 :=
      lt_of_le_of_lt (Nat.le_add_right _ _) h
    rw [sumWords, swap16_word, Nat.mod_eq_of_lt hfirst, ih h]
  | case2 hi =>
    simp only [paddedWords, List.sum_cons, List.sum_nil, Nat.add_zero] at h ⊢
    rw [sumWords, swap16_byte, Nat.mod_eq_of_lt h]
  | case3 => rfl

/-- Up to `65537` words can be added up in 32 bits. -/
theorem paddedWords_sum_lt {data : Bytes} (h : data.length ≤ 131074) :
    (paddedWords data).sum < 2 ^ 32 := by
  have hsum := paddedWords_sum_le data
  omega

/-- As long as the 32-bit sum cannot overflow, the checksum is the complement of the
one's-complement sum. -/
theorem swap16_calcCheckSumm {data : Bytes} (h : data.length ≤ 131074) :
    swap16 (calcCheckSumm data) = 65535 - onesSum (paddedWords data) := by
  have hsum := paddedWords_sum_lt h
  have hle := onesResidue_le (paddedWords data).sum
  rw [calcCheckSumm, swap16_swap16 (Nat.mod_lt _ (by decide)), sumWords_eq (by omega),
    foldCarry_eq, Nat.zero_add, onesSum_paddedWords]
  omega

theorem add_replaced {s t : ℕ} (h : s ≤ t) :
    s + (if t - s = 0 then 1 else t - s) = if s = t then t + 1 else t := by
  split
  · have hs : s = t := by omega
    rw [if_pos hs, hs]
  · have hs : s ≠ t := by omega
    rw [if_neg hs]
    omega

/-- Three parts of a sum are complemented, and the complements are added up without their carries;
a sum of zero is replaced by one. With the result, the parts add up to `65535` if and only if
no carry was lost, or the sum was `65536`. -/
theorem onesResidue_complements_iff {x y z : ℕ} (hx : 0 < x) (hx' : x ≤ 65535) (hy : y ≤ 65535)
    (hz : z ≤ 65535) :
    onesResidue (x + y + z +
        if ((65535 - x) + (65535 - y) + (65535 - z)) % 65536 = 0 then 1
        else ((65535 - x) + (65535 - y) + (65535 - z)) % 65536) = 65535 ↔
      131069 ≤ x + y + z ∧ x + y + z < 196605 := by
  rw [onesResidue_eq_max_iff]
  obtain ⟨s, hs⟩ : ∃ s, s = x + y + z := ⟨_, rfl⟩
  have hsum : (65535 - x) + (65535 - y) + (65535 - z) = 196605 - s := by omega
  have hpos : 0 < s := by omega
  have hle : s ≤ 196605 := by omega
  rw [← hs, hsum]
  clear hs hsum hx hx' hy hz
  by_cases hhigh : 131069 < s
  · have hmod : (196605 - s) % 65536 = 196605 - s := by omega
    rw [hmod, add_replaced hle]
    split <;> omega
  · by_cases hmid : 65533 < s
    · have hmod : (196605 - s) % 65536 = 131069 - s := by omega
      rw [hmod, add_replaced (by omega)]
      split <;> omega
    · have hmod : (196605 - s) % 65536 = 65533 - s := by omega
      rw [hmod, add_replaced (by omega)]
      split <;> omega

end IPPacket

section Words

theorem IPHdr.paddedWords_bytes (h : IPHdr) :
    paddedWords h.bytes =
      [(h.version * 16 + h.ihl) % 256 * 256 + h.tos % 256, swap16 h.totLen, swap16 h.id,
        swap16 h.fragOff, h.ttl % 256 * 256 + h.protocol % 256, swap16 h.check] ++
      paddedWords (h.saddr.toList ++ h.daddr.toList) := by
  simp only [IPHdr.bytes, List.append_assoc, paddedWords_bytes_append, paddedWords_le_append,
    List.cons_append, List.nil_append]

theorem UDPHdr.paddedWords_append (h : UDPHdr) (rest : Bytes) :
    paddedWords (h.bytes ++ rest) =
      [swap16 h.source, swap16 h.dest, swap16 h.len, swap16 h.check] ++ paddedWords rest := by
  simp only [UDPHdr.bytes, List.append_assoc, paddedWords_le_append, List.cons_append,
    List.nil_append]

theorem UDPHdr.paddedWords_bytes (h : UDPHdr) :
    paddedWords h.bytes = [swap16 h.source, swap16 h.dest, swap16 h.len, swap16 h.check] := by
  have happend := h.paddedWords_append []
  rwa [List.append_nil, paddedWords_nil, List.append_nil] at happend

end Words

/-- The IP packet in a frame. -/
def ipPacket (datalink : ℤ) (frame : Bytes) : Bytes :=
  frame.drop (Datalink.headerSize datalink frame.length)

namespace IPPacket

theorem writeDataLink_unsupported {a : IPPacketArgs} (h : a.datalink ∉ datalinks) :
    writeDataLink a =
      .error (.exception ("IPPacket: unsupported datalink=" ++ toString a.datalink)) := by
  simp only [datalinks, List.mem_cons, List.not_mem_nil, or_false, not_or] at h
  obtain ⟨hraw, hnull, hloop, hether⟩ := h
  rw [writeDataLink, if_neg hraw, if_neg (not_or.mpr ⟨hnull, hloop⟩), if_neg hether]

theorem mem_datalinks {a : IPPacketArgs} {link : Bytes} (h : writeDataLink a = .ok link) :
    a.datalink ∈ datalinks := by
  by_contra hdatalink
  rw [writeDataLink_unsupported hdatalink] at h
  cases h

/-- What a frame consists of. -/
theorem create_parts {pton : Pton} {seqno : ℕ} {a : IPPacketArgs} {p : IPPacket}
    (h : create pton seqno a = .ok p) :
    ∃ link ip, writeDataLink a = .ok link ∧ writeIPHeader pton seqno a IPPROTO_UDP = .ok ip ∧
      p.serialize = link ++ ((finalize (ip.bytes.length + 8 + a.data.length) ip).bytes ++
        ((writeUDPHeader a ip).bytes ++ a.data)) := by
  unfold create at h
  obtain ⟨link, hlink, h⟩ := bind_ok_iff.mp h
  obtain ⟨ip, hip, h⟩ := bind_ok_iff.mp h
  obtain ⟨udp, hudp, h⟩ := bind_ok_iff.mp h
  obtain rfl : writeUDPHeader a ip = udp := Except.ok.inj hudp
  cases h
  exact ⟨link, ip, hlink, hip, by simp [serialize]⟩

theorem ipPacket_serialize {pton : Pton} {seqno : ℕ} {a : IPPacketArgs} {p : IPPacket}
    (h : create pton seqno a = .ok p) :
    ∃ ip, writeIPHeader pton seqno a IPPROTO_UDP = .ok ip ∧
      ipPacket a.datalink p.serialize =
        (finalize (ip.bytes.length + 8 + a.data.length) ip).bytes ++
          ((writeUDPHeader a ip).bytes ++ a.data) := by
  obtain ⟨link, ip, hlink, hip, hframe⟩ := create_parts h
  obtain ⟨link', hlink', hsize⟩ := writeDataLink_ok (mem_datalinks hlink)
  cases hlink.symm.trans hlink'
  exact ⟨ip, hip, by rw [ipPacket, hsize, hframe, List.drop_left]⟩

theorem writeIPHeader_v4 {pton : Pton} {seqno : ℕ} {a : IPPacketArgs} {ip : NetHdr}
    (haf : a.af = AF_INET) (h : writeIPHeader pton seqno a IPPROTO_UDP = .ok ip) :
    ∃ hdr : IPHdr, ip = .v4 hdr ∧ hdr.version = 4 ∧ hdr.ihl = 5 ∧ hdr.protocol = 17 ∧
      hdr.check = 0 ∧ pton.ipv4 a.srcAddr = some hdr.saddr ∧
      pton.ipv4 a.dstAddr = some hdr.daddr := by
  rw [writeIPHeader, if_pos haf] at h
  split at h
  · cases h
  · cases h
  · rename_i saddr daddr hsrc hdst
    cases h
    exact ⟨_, rfl, rfl, rfl, rfl, rfl, hsrc, hdst⟩

theorem writeIPHeader_v6 {pton : Pton} {seqno : ℕ} {a : IPPacketArgs} {ip : NetHdr}
    (haf : a.af = AF_INET6) (h : writeIPHeader pton seqno a IPPROTO_UDP = .ok ip) :
    ∃ hdr : IP6Hdr, ip = .v6 hdr := by
  have hne : AF_INET6 ≠ AF_INET := by decide
  rw [writeIPHeader, if_neg (by rw [haf]; exact hne), if_pos haf] at h
  split at h
  · cases h
  · cases h
  · cases h
    exact ⟨_, rfl⟩

/-- `finalize` leaves the fields of an IPv4 header but these two. -/
theorem finalize_v4 (total : ℕ) (hdr : IPHdr) :
    finalize total (.v4 hdr) = .v4
      { hdr with
        totLen := swap16 (total % 65536)
        check := calcCheckSumm { hdr with totLen := swap16 (total % 65536) }.bytes } := rfl

/-- The header checksum is computed last, over a header whose checksum is zero. -/
theorem headerSum_finalized (hdr : IPHdr) (hcheck : hdr.check = 0) (hversion : hdr.version = 4)
    (hihl : hdr.ihl = 5) :
    onesSum (paddedWords { hdr with check := calcCheckSumm hdr.bytes }.bytes) = 65535 := by
  have hzero : swap16 0 = 0 := rfl
  have hsum : (paddedWords { hdr with check := calcCheckSumm hdr.bytes }.bytes).sum =
      (paddedWords hdr.bytes).sum + swap16 (calcCheckSumm hdr.bytes) := by
    simp only [IPHdr.paddedWords_bytes, List.sum_append, List.sum_cons, List.sum_nil, hcheck, hzero]
    omega
  have hpos : 0 < (paddedWords hdr.bytes).sum := by
    simp only [IPHdr.paddedWords_bytes, List.sum_append, List.sum_cons, hversion, hihl]
    omega
  rw [onesSum_paddedWords, hsum, swap16_calcCheckSumm (by simp), onesSum_paddedWords,
    onesResidue_add_complement hpos]

end IPPacket

/-- What a receiver checks of an IPv4 packet with a UDP datagram of `dataSize` bytes. -/
structure IPv4Valid (ip : Bytes) (dataSize : ℕ) : Prop where
  version : readBE (slice ip 0 1) / 16 = 4
  ihl : readBE (slice ip 0 1) % 16 = 5
  totLen : readBE (slice ip 2 2) = 28 + dataSize
  udpLen : readBE (slice ip 24 2) = 8 + dataSize
  check : onesSum (paddedWords (slice ip 0 20)) = 0xFFFF

/-- What a receiver adds up to check the UDP datagram in an IPv4 packet: the pseudo header, whose
length is that of the UDP header, and the datagram. -/
def udpSum (ip : Bytes) : ℕ :=
  onesSum (paddedWords
    (slice ip 12 8 ++ le 1 0 ++ slice ip 9 1 ++ slice ip 24 2 ++ ip.drop 20))

section Fields

variable (hdr : IPHdr) (udp : UDPHdr) (data : Bytes)

theorem slice_ip_header {off len : ℕ} (h : off + len ≤ 20) :
    slice (hdr.bytes ++ (udp.bytes ++ data)) off len = slice hdr.bytes off len :=
  slice_append_left _ (by simpa using h)

theorem slice_ip_udp {off len : ℕ} (h : off + len ≤ 8) :
    slice (hdr.bytes ++ (udp.bytes ++ data)) (20 + off) len = slice udp.bytes off len := by
  rw [← hdr.length_bytes, slice_append_right, slice_append_left _ (by simpa using h)]

theorem IPHdr.slice_first : slice hdr.bytes 0 1 = le 1 (hdr.version * 16 + hdr.ihl) :=
  slice_field (a := []) (by simp only [IPHdr.bytes, List.append_assoc]; rfl) rfl rfl

theorem IPHdr.slice_totLen : slice hdr.bytes 2 2 = le 2 hdr.totLen :=
  slice_field (a := le 1 _ ++ le 1 _) (by simp only [IPHdr.bytes, List.append_assoc]; rfl) rfl rfl

theorem IPHdr.slice_protocol : slice hdr.bytes 9 1 = le 1 hdr.protocol :=
  slice_field (a := le 1 _ ++ le 1 _ ++ le 2 _ ++ le 2 _ ++ le 2 _ ++ le 1 _)
    (by simp only [IPHdr.bytes, List.append_assoc]; rfl) rfl rfl

theorem IPHdr.slice_addrs : slice hdr.bytes 12 8 = hdr.saddr.toList ++ hdr.daddr.toList :=
  slice_field (c := [])
    (a := le 1 _ ++ le 1 _ ++ le 2 _ ++ le 2 _ ++ le 2 _ ++ le 1 _ ++ le 1 _ ++ le 2 _)
    (by simp only [IPHdr.bytes, List.append_assoc, List.append_nil]; rfl) (by simp) (by simp)

theorem IPHdr.slice_all : slice hdr.bytes 0 20 = hdr.bytes :=
  slice_field (a := []) (c := []) (by simp) rfl (by simp)

theorem UDPHdr.slice_len : slice udp.bytes 4 2 = le 2 udp.len :=
  slice_field (a := le 2 _ ++ le 2 _) (by simp only [UDPHdr.bytes, List.append_assoc]; rfl) rfl rfl

end Fields

namespace IPPacket

theorem swap16_len (a : IPPacketArgs) (ip : NetHdr) :
    swap16 (writeUDPHeader a ip).len = (8 + a.data.length) % 65536 :=
  swap16_swap16 (Nat.mod_lt _ (by decide))

/-- The IPv4 header of every frame is valid, as long as its lengths fit. -/
theorem header_valid {pton : Pton} {seqno : ℕ} {a : IPPacketArgs} {p : IPPacket}
    (haf : a.af = AF_INET) (hdata : a.data.length ≤ 65507)
    (hcreate : create pton seqno a = .ok p) :
    IPv4Valid (ipPacket a.datalink p.serialize) a.data.length := by
  obtain ⟨ip, hip, hpacket⟩ := ipPacket_serialize hcreate
  obtain ⟨hdr, rfl, hversion, hihl, -, hcheck, -, -⟩ := writeIPHeader_v4 haf hip
  have hlength : (NetHdr.v4 hdr).bytes.length = 20 := hdr.length_bytes
  rw [finalize_v4, hlength] at hpacket
  rw [hpacket]
  constructor
  case version | ihl =>
    simp only [NetHdr.bytes]
    rw [slice_ip_header _ _ _ (by decide), IPHdr.slice_first]
    simp [hversion, hihl]
  case totLen =>
    simp only [NetHdr.bytes]
    rw [slice_ip_header _ _ _ (by decide), IPHdr.slice_totLen, readBE_le_two,
      swap16_swap16 (Nat.mod_lt _ (by decide)), Nat.mod_eq_of_lt (by omega)]
  case udpLen =>
    simp only [NetHdr.bytes]
    rw [slice_ip_udp _ _ _ (by decide : 4 + 2 ≤ 8), UDPHdr.slice_len, readBE_le_two, swap16_len,
      Nat.mod_eq_of_lt (by omega)]
  case check =>
    simp only [NetHdr.bytes]
    rw [slice_ip_header _ _ _ (by decide), IPHdr.slice_all]
    exact headerSum_finalized { hdr with totLen := swap16 (_ % 65536) } hcheck hversion hihl

/-- Two addresses of hosts, and an IPv6 address. -/
def hosts : Pton where
  ipv4 := fun s =>
    if s = "192.168.0.1" then some #v[192, 168, 0, 1]
    else if s = "63.0.0.2" then some #v[63, 0, 0, 2] else none
  ipv6 := fun s =>
    if s = "::1" then some #v[0, 0, 0, 0, 0, 0, 0, 0, 0, 0, 0, 0, 0, 0, 0, 1] else none

def hostArgs (datalink : ℤ) (data : Bytes) : IPPacketArgs where
  datalink := datalink
  af := AF_INET
  proto := 17
  srcAddr := "192.168.0.1"
  srcPort := 60000
  dstAddr := "63.0.0.2"
  dstPort := 5060
  data := data

def loopbackArgs (datalink : ℤ) (data : Bytes) : IPPacketArgs where
  datalink := datalink
  af := AF_INET6
  proto := 17
  srcAddr := "::1"
  srcPort := 60000
  dstAddr := "::1"
  dstPort := 5060
  data := data

/-- An Ethernet frame without data. -/
theorem header_valid_ethernet :
    ∃ p, create hosts 0xabcdd (hostArgs DLT_EN10MB []) = .ok p ∧
      IPv4Valid (ipPacket DLT_EN10MB p.serialize) 0 := by
  obtain ⟨p, hcreate⟩ : ∃ p, create hosts 0xabcdd (hostArgs DLT_EN10MB []) = .ok p := ⟨_, rfl⟩
  exact ⟨p, hcreate, header_valid (a := hostArgs DLT_EN10MB []) rfl (by decide) hcreate⟩

/-- The header that `writeUDPHeader` begins with. -/
def uncheckedUDP (a : IPPacketArgs) : UDPHdr where
  source := swap16 a.srcPort.toNat
  dest := swap16 a.dstPort.toNat
  len := swap16 ((8 + a.data.length) % 65536)
  check := 0

theorem pseudo_length_le (udp : UDPHdr) (ip : NetHdr) : (pseudo udp ip).length ≤ 40 := by
  cases ip with
  | v4 h => simp [pseudo]
  | v6 h => simp [pseudo]

theorem swap16_eq_zero_iff {n : ℕ} (h : n < 65536) : swap16 n = 0 ↔ n = 0 := by
  unfold swap16
  omega

theorem check_eq (a : IPPacketArgs) (ip : NetHdr) {u : ℕ}
    (hu : u = ((swap16 (calcCheckSumm (pseudo (uncheckedUDP a) ip)) +
      swap16 (calcCheckSumm (uncheckedUDP a).bytes)) % 65536 +
      swap16 (calcCheckSumm a.data)) % 65536) :
    (writeUDPHeader a ip).check = if swap16 u = 0 then swap16 1 else swap16 u := by
  have hlt : u < 65536 := hu ▸ Nat.mod_lt _ (by decide)
  have hcarry : u % 65536 + u / 65536 = u := by
    rw [Nat.mod_eq_of_lt hlt, Nat.div_eq_of_lt hlt, Nat.add_zero]
  unfold uncheckedUDP at hu
  simp only [writeUDPHeader]
  rw [← hu, hcarry]

/-- The checksum is put together from three complements, without their carries. -/
theorem swap16_check (a : IPPacketArgs) (ip : NetHdr) (hdata : a.data.length ≤ 131074)
    {x y z t : ℕ} (hx : x = onesSum (paddedWords (pseudo (uncheckedUDP a) ip)))
    (hy : y = onesSum (paddedWords (uncheckedUDP a).bytes))
    (hz : z = onesSum (paddedWords a.data))
    (ht : t = (65535 - x) + (65535 - y) + (65535 - z)) :
    swap16 (writeUDPHeader a ip).check = if t % 65536 = 0 then 1 else t % 65536 := by
  have hpseudo := pseudo_length_le (uncheckedUDP a) ip
  have hbytes : (uncheckedUDP a).bytes.length ≤ 131074 := by simp
  have hlt : t % 65536 < 65536 := Nat.mod_lt _ (by decide)
  have hu : t % 65536 = ((swap16 (calcCheckSumm (pseudo (uncheckedUDP a) ip)) +
      swap16 (calcCheckSumm (uncheckedUDP a).bytes)) % 65536 +
      swap16 (calcCheckSumm a.data)) % 65536 := by
    rw [swap16_calcCheckSumm (hpseudo.trans (by decide)), swap16_calcCheckSumm hbytes,
      swap16_calcCheckSumm hdata, ← hx, ← hy, ← hz, Nat.mod_add_mod, ht]
  rw [check_eq a ip hu]
  simp only [swap16_eq_zero_iff hlt]
  split
  · exact swap16_swap16 (by decide)
  · exact swap16_swap16 hlt

/-- The datagram and its pseudo header, the way a receiver sees them. -/
theorem udpSum_eq (hdr : IPHdr) (udp : UDPHdr) (data : Bytes) :
    udpSum (hdr.bytes ++ (udp.bytes ++ data)) =
      onesResidue ((paddedWords (pseudo udp (.v4 hdr))).sum +
        ((paddedWords udp.bytes).sum + (paddedWords data).sum)) := by
  have hdrop : (hdr.bytes ++ (udp.bytes ++ data)).drop 20 = udp.bytes ++ data :=
    List.drop_left' hdr.length_bytes
  rw [udpSum, slice_ip_header _ _ _ (by decide), slice_ip_header _ _ _ (by decide),
    slice_ip_udp _ _ _ (by decide : 4 + 2 ≤ 8), IPHdr.slice_addrs, IPHdr.slice_protocol,
    UDPHdr.slice_len, hdrop]
  change onesSum (paddedWords (pseudo udp (.v4 hdr) ++ (udp.bytes ++ data))) = _
  rw [onesSum_paddedWords, paddedWords_append (by simp [pseudo]), paddedWords_append (by simp),
    List.sum_append, List.sum_append]

/-- The one's-complement sums of the three parts that `writeUDPHeader` adds up. -/
def partialSums (a : IPPacketArgs) (saddr daddr : Vector UInt8 4) : ℕ :=
  onesSum (paddedWords (saddr.toList ++ daddr.toList) ++ [17, 8 + a.data.length]) +
    onesSum [a.srcPort.toNat, a.dstPort.toNat, 8 + a.data.length] +
    onesSum (paddedWords a.data)

theorem paddedWords_pseudo {a : IPPacketArgs} {hdr : IPHdr} (hprotocol : hdr.protocol = 17)
    (hdata : a.data.length ≤ 65507) :
    paddedWords (pseudo (uncheckedUDP a) (.v4 hdr)) =
      paddedWords (hdr.saddr.toList ++ hdr.daddr.toList) ++ [17, 8 + a.data.length] := by
  have hlen : swap16 (uncheckedUDP a).len = 8 + a.data.length := by
    rw [uncheckedUDP, swap16_swap16 (Nat.mod_lt _ (by decide)), Nat.mod_eq_of_lt (by omega)]
  have htail := paddedWords_bytes_append 0 17 (le 2 (uncheckedUDP a).len ++ [])
  rw [paddedWords_le_append, hlen] at htail
  have hbytes : pseudo (uncheckedUDP a) (.v4 hdr) = (hdr.saddr.toList ++ hdr.daddr.toList) ++
      (le 1 0 ++ (le 1 17 ++ (le 2 (uncheckedUDP a).len ++ []))) := by
    simp [pseudo, hprotocol]
  rw [hbytes, paddedWords_append (by simp), htail]
  rfl

theorem paddedWords_unchecked {a : IPPacketArgs} (hdata : a.data.length ≤ 65507) :
    paddedWords (uncheckedUDP a).bytes =
      [a.srcPort.toNat, a.dstPort.toNat, 8 + a.data.length, 0] := by
  have hsource : swap16 (swap16 a.srcPort.toNat) = a.srcPort.toNat :=
    swap16_swap16 a.srcPort.toNat_lt
  have hdest : swap16 (swap16 a.dstPort.toNat) = a.dstPort.toNat :=
    swap16_swap16 a.dstPort.toNat_lt
  rw [UDPHdr.paddedWords_bytes]
  simp only [uncheckedUDP]
  rw [hsource, hdest, swap16_swap16 (Nat.mod_lt _ (by decide)), Nat.mod_eq_of_lt (by omega)]
  rfl

/-- With its checksum, a UDP header adds up to more by the checksum. -/
theorem sum_writeUDPHeader (a : IPPacketArgs) (ip : NetHdr) :
    (paddedWords (writeUDPHeader a ip).bytes).sum =
      (paddedWords (uncheckedUDP a).bytes).sum + swap16 (writeUDPHeader a ip).check := by
  have hzero : swap16 (uncheckedUDP a).check = 0 := by simp [uncheckedUDP, swap16]
  have hsame : swap16 (writeUDPHeader a ip).source = swap16 (uncheckedUDP a).source ∧
      swap16 (writeUDPHeader a ip).dest = swap16 (uncheckedUDP a).dest ∧
      swap16 (writeUDPHeader a ip).len = swap16 (uncheckedUDP a).len := ⟨rfl, rfl, rfl⟩
  simp only [UDPHdr.paddedWords_bytes, List.sum_cons, List.sum_nil, hzero, hsame]
  omega

/-- A receiver accepts the UDP checksum of an IPv4 frame if and only if no carry is lost when the
complements of the three sums are added up, or nothing but the carry is left. -/
theorem udpSum_valid_iff {pton : Pton} {seqno : ℕ} {a : IPPacketArgs} {p : IPPacket}
    {saddr daddr : Vector UInt8 4} (haf : a.af = AF_INET) (hdata : a.data.length ≤ 65507)
    (hsrc : pton.ipv4 a.srcAddr = some saddr) (hdst : pton.ipv4 a.dstAddr = some daddr)
    (hcreate : create pton seqno a = .ok p) :
    udpSum (ipPacket a.datalink p.serialize) = 0xFFFF ↔
      131069 ≤ partialSums a saddr daddr ∧ partialSums a saddr daddr < 196605 := by
  obtain ⟨ip, hip, hpacket⟩ := ipPacket_serialize hcreate
  obtain ⟨hdr, rfl, -, -, hprotocol, -, hsaddr, hdaddr⟩ := writeIPHeader_v4 haf hip
  obtain rfl : saddr = hdr.saddr := Option.some.inj (hsrc.symm.trans hsaddr)
  obtain rfl : daddr = hdr.daddr := Option.some.inj (hdst.symm.trans hdaddr)
  have hparts : udpSum (ipPacket a.datalink p.serialize) =
      onesResidue ((paddedWords (pseudo (uncheckedUDP a) (.v4 hdr))).sum +
        ((paddedWords (writeUDPHeader a (.v4 hdr)).bytes).sum + (paddedWords a.data).sum)) := by
    rw [hpacket, finalize_v4]
    exact udpSum_eq _ _ _
  have hx : onesResidue (paddedWords (pseudo (uncheckedUDP a) (.v4 hdr))).sum =
      onesSum (paddedWords (hdr.saddr.toList ++ hdr.daddr.toList) ++ [17, 8 + a.data.length]) := by
    rw [← onesSum_paddedWords, paddedWords_pseudo hprotocol hdata]
  have hy : onesResidue (paddedWords (uncheckedUDP a).bytes).sum =
      onesSum [a.srcPort.toNat, a.dstPort.toNat, 8 + a.data.length] := by
    rw [← onesSum_paddedWords, paddedWords_unchecked hdata]
    rfl
  have hz := onesSum_paddedWords a.data
  -- the pseudo header is not all zero
  have hpos : 0 < onesResidue (paddedWords (pseudo (uncheckedUDP a) (.v4 hdr))).sum := by
    rw [Nat.pos_iff_ne_zero, Ne, onesResidue_eq_zero_iff, paddedWords_pseudo hprotocol hdata]
    simp
  have hcheck := swap16_check a (.v4 hdr) (hdata.trans (by decide)) (onesSum_paddedWords _).symm
    (onesSum_paddedWords _).symm hz.symm rfl
  have hlast : ∀ x y z c : ℕ, x + (y + c + z) = x + y + z + c := fun x y z c => by omega
  rw [hparts, sum_writeUDPHeader, hlast, partialSums, ← hx, ← hy, hz,
    ← onesResidue_complements_iff hpos (onesResidue_le _) (onesResidue_le _) (onesResidue_le _),
    onesResidue_parts, hcheck]

/-- A datagram of one byte whose checksum is accepted. -/
theorem udpSum_valid_iff_one_byte :
    ∃ p, create hosts 0xabcdd (hostArgs DLT_RAW [200]) = .ok p ∧
      udpSum (ipPacket DLT_RAW p.serialize) = 0xFFFF := by
  obtain ⟨p, hcreate⟩ : ∃ p, create hosts 0xabcdd (hostArgs DLT_RAW [200]) = .ok p := ⟨_, rfl⟩
  have hvalid := udpSum_valid_iff (a := hostArgs DLT_RAW [200]) rfl (by decide)
    (show hosts.ipv4 "192.168.0.1" = some #v[192, 168, 0, 1] from rfl)
    (show hosts.ipv4 "63.0.0.2" = some #v[63, 0, 0, 2] from rfl) hcreate
  exact ⟨p, hcreate, hvalid.mpr (by decide +kernel)⟩

/-- A datagram without data, whose checksum is not accepted. -/
theorem udpSum_refused :
    ¬∀ pton seqno a p, a.af = AF_INET → a.data.length ≤ 65507 → create pton seqno a = .ok p →
      udpSum (ipPacket a.datalink p.serialize) = 0xFFFF := by
  intro hall
  have haccepted := hall hosts 0xabcdd (hostArgs DLT_RAW []) _ rfl (by decide) rfl
  exact absurd haccepted (by decide +kernel)

end IPPacket

/-- What a receiver adds up to check the UDP datagram in an IPv6 packet: the addresses, the length
of what follows the header, the next header 17, and the datagram. -/
def udp6Sum (ip : Bytes) : ℕ :=
  onesSum (paddedWords
    (slice ip 8 32 ++ (le 4 (ip.length - 40)).reverse ++ [0, 0, 0, 17] ++ ip.drop 40))

/-- What a receiver checks of an IPv6 packet with a UDP datagram of `dataSize` bytes. -/
structure IPv6Valid (ip : Bytes) (dataSize : ℕ) : Prop where
  version : readBE (slice ip 0 1) / 16 = 6
  plen : readBE (slice ip 4 2) = ip.length - 40
  udpLen : readBE (slice ip 44 2) = 8 + dataSize
  check : udp6Sum ip = 0xFFFF

theorem IP6Hdr.slice_plen (hdr : IP6Hdr) : slice hdr.bytes 4 2 = le 2 hdr.plen :=
  slice_field (a := le 4 _) (by simp only [IP6Hdr.bytes, List.append_assoc]; rfl) rfl rfl

namespace IPPacket

theorem finalize_v6 (total : ℕ) (hdr : IP6Hdr) :
    finalize total (.v6 hdr) = .v6 { hdr with plen := swap16 (total % 65536) } := rfl

/-- The payload length of an IPv6 frame counts the header, before it is cut to 16 bits. -/
theorem plen_serialize {pton : Pton} {seqno : ℕ} {a : IPPacketArgs} {p : IPPacket}
    (haf : a.af = AF_INET6) (hcreate : create pton seqno a = .ok p) :
    readBE (slice (ipPacket a.datalink p.serialize) 4 2) = (48 + a.data.length) % 65536 ∧
      (ipPacket a.datalink p.serialize).length = 48 + a.data.length := by
  obtain ⟨ip, hip, hpacket⟩ := ipPacket_serialize hcreate
  obtain ⟨hdr, rfl⟩ := writeIPHeader_v6 haf hip
  have hlength : (NetHdr.v6 hdr).bytes.length = 40 := hdr.length_bytes
  rw [finalize_v6, hlength] at hpacket
  rw [hpacket]
  simp only [NetHdr.bytes]
  constructor
  · rw [slice_append_left _ (by simp), IP6Hdr.slice_plen, readBE_le_two,
      swap16_swap16 (Nat.mod_lt _ (by decide))]
  · rw [List.length_append, List.length_append, IP6Hdr.length_bytes, UDPHdr.length_bytes,
      ← Nat.add_assoc]

/-- No IPv6 frame is valid: its payload length is never the number of the bytes behind the
header. -/
theorem ip6_not_valid {pton : Pton} {seqno : ℕ} {a : IPPacketArgs} {p : IPPacket}
    (haf : a.af = AF_INET6) (hcreate : create pton seqno a = .ok p) :
    ¬IPv6Valid (ipPacket a.datalink p.serialize) a.data.length := by
  intro hvalid
  obtain ⟨hfield, hlength⟩ := plen_serialize haf hcreate
  have hplen := hvalid.plen
  rw [hfield, hlength] at hplen
  omega

theorem ip6_not_valid_loopback :
    ∃ p, create hosts 0xabcdd (loopbackArgs DLT_NULL [1, 2, 3]) = .ok p ∧
      ¬IPv6Valid (ipPacket DLT_NULL p.serialize) 3 := by
  obtain ⟨p, hcreate⟩ : ∃ p, create hosts 0xabcdd (loopbackArgs DLT_NULL [1, 2, 3]) = .ok p :=
    ⟨_, rfl⟩
  exact ⟨p, hcreate, ip6_not_valid (a := loopbackArgs DLT_NULL [1, 2, 3]) rfl hcreate⟩

/-- The payload length of a datagram without data is 48. -/
theorem ip6_plen_48 :
    ¬∀ pton seqno a p, a.af = AF_INET6 → a.data.length ≤ 65527 → create pton seqno a = .ok p →
      IPv6Valid (ipPacket a.datalink p.serialize) a.data.length := by
  intro hall
  have hvalid := hall hosts 0xabcdd (loopbackArgs DLT_RAW []) _ rfl (by decide) rfl
  exact absurd hvalid.plen (by decide +kernel)

end IPPacket

end NetComponents.Pcap
