import NetComponents.Pcap.IPPacket

/-!
# Reading back what was written

The parsers find each header at the offset where the writer put it, for every
link layer and both address families. The length fields may have wrapped: the
only one that is compared with the data is the UDP length, and there a smaller
value passes as well.
-/

namespace NetComponents.Pcap

open Library

section Fields

@[simp] theorem IPHdr.length_bytes (h : IPHdr) : h.bytes.length = 20 := by
  simp [IPHdr.bytes]

@[simp] theorem IP6Hdr.length_bytes (h : IP6Hdr) : h.bytes.length = 40 := by
  simp [IP6Hdr.bytes]

@[simp] theorem UDPHdr.length_bytes (h : UDPHdr) : h.bytes.length = 8 := by
  simp [UDPHdr.bytes]

theorem IPHdr.read_version (h : IPHdr) (hlt : h.version * 16 + h.ihl < 256) :
    readNat h.bytes 0 1 = .ok (h.version * 16 + h.ihl) :=
  readNat_field (a := []) (by simp [IPHdr.bytes]; rfl) rfl hlt

theorem IPHdr.read_protocol (h : IPHdr) (hlt : h.protocol < 256) :
    readNat h.bytes 9 1 = .ok h.protocol :=
  readNat_field (a := le 1 _ ++ le 1 _ ++ le 2 _ ++ le 2 _ ++ le 2 _ ++ le 1 _)
    (by simp only [IPHdr.bytes, List.append_assoc]; rfl) rfl hlt

theorem IPHdr.read_saddr (h : IPHdr) : read h.bytes 12 4 = .ok h.saddr.toList :=
  read_field
    (a := le 1 _ ++ le 1 _ ++ le 2 _ ++ le 2 _ ++ le 2 _ ++ le 1 _ ++ le 1 _ ++ le 2 _)
    (by simp only [IPHdr.bytes, List.append_assoc]; rfl) rfl (by simp)

theorem IPHdr.read_daddr (h : IPHdr) : read h.bytes 16 4 = .ok h.daddr.toList :=
  read_field (c := [])
    (a := le 1 _ ++ le 1 _ ++ le 2 _ ++ le 2 _ ++ le 2 _ ++ le 1 _ ++ le 1 _ ++ le 2 _ ++
      h.saddr.toList)
    (by simp only [IPHdr.bytes, List.append_assoc, List.append_nil]; rfl) (by simp) (by simp)

/-- The version is in the high half of the first byte, as in an IPv4 header. -/
theorem IP6Hdr.read_version (h : IP6Hdr) : readNat h.bytes 0 1 = .ok (h.flow % 256) := by
  have hread : read h.bytes 0 1 = .ok [UInt8.ofNat h.flow] :=
    read_field (a := [])
      (by simp only [IP6Hdr.bytes, le, List.append_assoc, List.cons_append]; rfl) rfl rfl
  simp [readNat, hread, Except.map]

theorem IP6Hdr.read_nxt (h : IP6Hdr) (hlt : h.nxt < 256) : readNat h.bytes 6 1 = .ok h.nxt :=
  readNat_field (a := le 4 _ ++ le 2 _)
    (by simp only [IP6Hdr.bytes, List.append_assoc]; rfl) rfl hlt

theorem IP6Hdr.read_src (h : IP6Hdr) : read h.bytes 8 16 = .ok h.src.toList :=
  read_field (a := le 4 _ ++ le 2 _ ++ le 1 _ ++ le 1 _)
    (by simp only [IP6Hdr.bytes, List.append_assoc]; rfl) rfl (by simp)

theorem IP6Hdr.read_dst (h : IP6Hdr) : read h.bytes 24 16 = .ok h.dst.toList :=
  read_field (c := []) (a := le 4 _ ++ le 2 _ ++ le 1 _ ++ le 1 _ ++ h.src.toList)
    (by simp only [IP6Hdr.bytes, List.append_assoc, List.append_nil]; rfl) (by simp) (by simp)

theorem UDPHdr.read_source (h : UDPHdr) (hlt : h.source < 65536) :
    readNat h.bytes 0 2 = .ok h.source :=
  readNat_field (a := []) (by simp only [UDPHdr.bytes, List.append_assoc]; rfl) rfl hlt

theorem UDPHdr.read_dest (h : UDPHdr) (hlt : h.dest < 65536) :
    readNat h.bytes 2 2 = .ok h.dest :=
  readNat_field (a := le 2 _) (by simp only [UDPHdr.bytes, List.append_assoc]; rfl) rfl hlt

theorem UDPHdr.read_len (h : UDPHdr) (hlt : h.len < 65536) :
    readNat h.bytes 4 2 = .ok h.len :=
  readNat_field (a := le 2 _ ++ le 2 _)
    (by simp only [UDPHdr.bytes, List.append_assoc]; rfl) rfl hlt

end Fields

namespace NetHdr

def version : NetHdr → ℕ
  | .v4 _ => PacketInfo.IPVersion.kIPv4
  | .v6 _ => PacketInfo.IPVersion.kIPv6

def srcText : NetHdr → String
  | .v4 h => inetNtop4 h.saddr.toList
  | .v6 h => inetNtop6 h.src.toList

def dstText : NetHdr → String
  | .v4 h => inetNtop4 h.daddr.toList
  | .v6 h => inetNtop6 h.dst.toList

/-- What a parser looks at in a header in front of a UDP header. -/
def CarriesUDP : NetHdr → Prop
  | .v4 h => h.version = 4 ∧ h.ihl = 5 ∧ h.protocol = PacketInfo.IPProto.kUDP
  | .v6 h => h.flow % 256 / 16 = 6 ∧ h.nxt = PacketInfo.IPProto.kUDP

end NetHdr

section Reading

variable {datalink : ℤ} {link rest : Bytes}

theorem Datalink.payload_read (hlink : ∀ len, Datalink.headerSize datalink len = link.length)
    (hrest : rest ≠ []) (info : PacketInfo) :
    Datalink.payload datalink (link ++ rest) info = .ok (link.length, info) := by
  have hlen : link.length < (link ++ rest).length := by
    simpa using List.length_pos_of_ne_nil hrest
  unfold Datalink.payload Raw.payload
  simp only [ok_bind, pure_ok, Nat.zero_add, hlink]
  rw [if_pos hlen]

theorem IP.payload_read {ip : NetHdr}
    (hlink : ∀ len, Datalink.headerSize datalink len = link.length) (hip : ip.CarriesUDP)
    (hrest : rest ≠ []) (info : PacketInfo) :
    IP.payload datalink (link ++ (ip.bytes ++ rest)) info =
      .ok (link.length + ip.bytes.length, { info with
        ip := ip.version, proto := PacketInfo.IPProto.kUDP
        srcAddr := ip.srcText, dstAddr := ip.dstText }) := by
  have hpos := List.length_pos_of_ne_nil hrest
  cases ip with
  | v4 h =>
    obtain ⟨hversion, hihl, hprotocol⟩ := hip
    change IP.payload datalink (link ++ (h.bytes ++ rest)) info =
      .ok (link.length + h.bytes.length, _)
    have hlen : link.length + 20 < (link ++ (h.bytes ++ rest)).length := by
      simp only [List.length_append, IPHdr.length_bytes]
      omega
    have hfirst : readNat (link ++ (h.bytes ++ rest)) link.length 1 = .ok 69 := by
      rw [readNat_start _ (by simp), h.read_version (by simp [hversion, hihl]), hversion, hihl]
    unfold IP.payload
    rw [Datalink.payload_read hlink (by simp [hrest])]
    simp only [ok_bind, pure_ok, hlen, hfirst, Nat.reduceDiv, Nat.reduceMod, Nat.reduceMul,
      ↓reduceIte]
    rw [readNat_inside _ (by simp), read_inside _ (by simp), read_inside _ (by simp),
      h.read_protocol (by simp [hprotocol, PacketInfo.IPProto.kUDP]), h.read_saddr, h.read_daddr]
    simp [hprotocol, NetHdr.version, NetHdr.srcText, NetHdr.dstText, PacketInfo.IPVersion.kIPv4]
  | v6 h =>
    obtain ⟨hversion, hnxt⟩ := hip
    change IP.payload datalink (link ++ (h.bytes ++ rest)) info =
      .ok (link.length + h.bytes.length, _)
    have hlen : link.length + 40 < (link ++ (h.bytes ++ rest)).length := by
      simp only [List.length_append, IP6Hdr.length_bytes]
      omega
    have hlen' : link.length + 20 < (link ++ (h.bytes ++ rest)).length := by omega
    have hfirst : readNat (link ++ (h.bytes ++ rest)) link.length 1 = .ok (h.flow % 256) := by
      rw [readNat_start _ (by simp), h.read_version]
    unfold IP.payload
    rw [Datalink.payload_read hlink (by simp [hrest])]
    simp only [ok_bind, pure_ok, hlen, hlen', hfirst, hversion, Nat.reduceEqDiff, ↓reduceIte]
    rw [readNat_inside _ (by simp), read_inside _ (by simp), read_inside _ (by simp),
      h.read_nxt (by simp [hnxt, PacketInfo.IPProto.kUDP]), h.read_src, h.read_dst]
    simp [hnxt, NetHdr.version, NetHdr.srcText, NetHdr.dstText, PacketInfo.IPVersion.kIPv6]

/-- Headers as the parsers find them in front of `dataSize` bytes of data. -/
structure Headers (datalink : ℤ) (dataSize : ℕ) where
  link : Bytes
  ip : NetHdr
  udp : UDPHdr
  headerSize_eq : ∀ len, Datalink.headerSize datalink len = link.length
  carriesUDP : ip.CarriesUDP
  source_lt : udp.source < 65536
  dest_lt : udp.dest < 65536
  len_lt : udp.len < 65536
  len_fits : swap16 udp.len ≤ 8 + dataSize

namespace Headers

variable {dataSize : ℕ} (h : Headers datalink dataSize)

def bytes : Bytes := h.link ++ h.ip.bytes ++ h.udp.bytes

/-- What the parsers learn from the headers. -/
def info (i : PacketInfo) : PacketInfo :=
  { i with
    ip := h.ip.version, proto := PacketInfo.IPProto.kUDP
    srcAddr := h.ip.srcText, srcPort := swap16 h.udp.source
    dstAddr := h.ip.dstText, dstPort := swap16 h.udp.dest }

end Headers

theorem UDP.payload_read (h : Headers datalink rest.length) (hrest : rest ≠ [])
    (info : PacketInfo) :
    UDP.payload datalink (h.bytes ++ rest) info = .ok (h.bytes.length, h.info info) := by
  have hpos := List.length_pos_of_ne_nil hrest
  have hassoc : h.bytes ++ rest = h.link ++ (h.ip.bytes ++ (h.udp.bytes ++ rest)) := by
    simp [Headers.bytes]
  have hassoc' : h.link ++ (h.ip.bytes ++ (h.udp.bytes ++ rest)) =
      (h.link ++ h.ip.bytes) ++ (h.udp.bytes ++ rest) := by simp
  have hat : h.link.length + h.ip.bytes.length = (h.link ++ h.ip.bytes).length := by simp
  unfold UDP.payload
  rw [hassoc, IP.payload_read h.headerSize_eq h.carriesUDP (by simp [hrest])]
  simp only [ok_bind, pure_ok]
  rw [hassoc', hat]
  have htotal : ((h.link ++ h.ip.bytes) ++ (h.udp.bytes ++ rest)).length =
      (h.link ++ h.ip.bytes).length + (8 + rest.length) := by simp; omega
  have hshort : (h.link ++ h.ip.bytes).length + 8 <
      ((h.link ++ h.ip.bytes) ++ (h.udp.bytes ++ rest)).length := by omega
  have hinside : (h.link ++ h.ip.bytes).length + swap16 h.udp.len ≤
      ((h.link ++ h.ip.bytes) ++ (h.udp.bytes ++ rest)).length := by
    have := h.len_fits
    omega
  have hlen : readNat ((h.link ++ h.ip.bytes) ++ (h.udp.bytes ++ rest))
      ((h.link ++ h.ip.bytes).length + 4) 2 = .ok h.udp.len := by
    rw [readNat_inside _ (by simp), h.udp.read_len h.len_lt]
  have hsource : readNat ((h.link ++ h.ip.bytes) ++ (h.udp.bytes ++ rest))
      (h.link ++ h.ip.bytes).length 2 = .ok h.udp.source := by
    rw [readNat_start _ (by simp), h.udp.read_source h.source_lt]
  have hdest : readNat ((h.link ++ h.ip.bytes) ++ (h.udp.bytes ++ rest))
      ((h.link ++ h.ip.bytes).length + 2) 2 = .ok h.udp.dest := by
    rw [readNat_inside _ (by simp), h.udp.read_dest h.dest_lt]
  simp only [ok_bind, hshort, hlen, hinside, hsource, hdest, ↓reduceIte]
  simp [Headers.bytes, Headers.info, Nat.add_assoc]

theorem Smart.payload_read (h : Headers datalink rest.length) (hrest : rest ≠ [])
    (info : PacketInfo) :
    Smart.payload datalink (h.bytes ++ rest) info = .ok (h.bytes.length, h.info info) := by
  have hassoc : h.bytes ++ rest = h.link ++ (h.ip.bytes ++ (h.udp.bytes ++ rest)) := by
    simp [Headers.bytes]
  unfold Smart.payload
  rw [hassoc, IP.payload_read h.headerSize_eq h.carriesUDP (by simp [hrest]), ← hassoc]
  simp only [ok_bind]
  rw [if_neg (by decide)]
  simp only [↓reduceIte, UDP.payload_read h hrest]
  simp [Headers.info]

/-- A payload behind the headers becomes the one packet. -/
theorem Raw.packets_read {payload : Payload} {headers : Bytes} {ts : Timeval}
    {info : PacketInfo} (hrest : rest ≠ [])
    (h : payload (headers ++ rest) { ts := ts } = .ok (headers.length, info)) :
    Raw.packets payload (headers ++ rest) ts = .ok [⟨rest, info⟩] := by
  have hlen : headers.length < (headers ++ rest).length := by
    simpa using List.length_pos_of_ne_nil hrest
  unfold Raw.packets
  rw [h]
  simp only [ok_bind, pure_ok]
  rw [if_pos hlen, List.drop_left]

end Reading

namespace IPPacket

/-- The text of an address as the parsers print it. -/
def textForm (pton : Pton) (af : ℤ) (addr : String) : Option String :=
  if af = AF_INET then (pton.ipv4 addr).map fun x => inetNtop4 x.toList
  else if af = AF_INET6 then (pton.ipv6 addr).map fun x => inetNtop6 x.toList
  else none

/-- The link layers that the writer knows. -/
def datalinks : List ℤ := [DLT_RAW, DLT_NULL, DLT_LOOP, DLT_EN10MB]

theorem length_copyMAC (mac : Vector UInt16 6) : (copyMAC mac).length = 6 := by
  have hlen : (mac.toList.flatMap fun w => le 2 w.toNat).length = 12 := by
    rw [List.length_flatMap]
    simp
  rw [copyMAC, List.length_take, hlen]
  rfl

theorem writeDataLink_ok {a : IPPacketArgs} (h : a.datalink ∈ datalinks) :
    ∃ link, writeDataLink a = .ok link ∧
      ∀ len, Datalink.headerSize a.datalink len = link.length := by
  simp only [datalinks, List.mem_cons, List.not_mem_nil, or_false] at h
  rcases h with h | h | h | h
  · refine ⟨_, by simp only [writeDataLink, h, ↓reduceIte]; rfl, ?_⟩
    intro len
    simp [Datalink.headerSize, h]
  · refine ⟨_, by simp only [writeDataLink, h]; rfl, ?_⟩
    intro len
    simp only [Datalink.headerSize, h, length_le]
    rfl
  · refine ⟨_, by simp only [writeDataLink, h]; rfl, ?_⟩
    intro len
    simp only [Datalink.headerSize, h, length_le]
    rfl
  · refine ⟨_, by simp only [writeDataLink, h]; rfl, ?_⟩
    intro len
    simp only [Datalink.headerSize, h, EtherHeader.bytes, List.length_append, length_copyMAC,
      length_le]
    rfl

theorem writeIPHeader_ok {pton : Pton} {a : IPPacketArgs} {src dst : String} (seqno : ℕ)
    (hsrc : textForm pton a.af a.srcAddr = some src)
    (hdst : textForm pton a.af a.dstAddr = some dst) :
    ∃ ip, writeIPHeader pton seqno a IPPROTO_UDP = .ok ip ∧ ip.CarriesUDP ∧
      ip.version = (if a.af = AF_INET then 4 else 6) ∧ ip.srcText = src ∧ ip.dstText = dst := by
  unfold textForm at hsrc hdst
  by_cases h4 : a.af = AF_INET
  · rw [if_pos h4, Option.map_eq_some_iff] at hsrc hdst
    obtain ⟨saddr, hs, rfl⟩ := hsrc
    obtain ⟨daddr, hd, rfl⟩ := hdst
    refine ⟨_, by rw [writeIPHeader, if_pos h4, hs, hd], ?_⟩
    rw [if_pos h4]
    exact ⟨⟨rfl, rfl, rfl⟩, rfl, rfl, rfl⟩
  · by_cases h6 : a.af = AF_INET6
    · rw [if_neg h4, if_pos h6, Option.map_eq_some_iff] at hsrc hdst
      obtain ⟨src, hs, rfl⟩ := hsrc
      obtain ⟨dst, hd, rfl⟩ := hdst
      refine ⟨_, by rw [writeIPHeader, if_neg h4, if_pos h6, hs, hd], ?_⟩
      rw [if_neg h4]
      refine ⟨⟨?_, rfl⟩, rfl, rfl, rfl⟩
      -- the version is in the high half of the lowest byte of the flow word
      simp only
      omega
    · rw [if_neg h4, if_neg h6] at hsrc
      cases hsrc

/-- `finalize` changes none of the fields that the parsers look at. -/
theorem finalize_reads (total : ℕ) {ip : NetHdr} (hip : ip.CarriesUDP) :
    (finalize total ip).CarriesUDP ∧
    (finalize total ip).version = ip.version ∧ (finalize total ip).srcText = ip.srcText ∧
    (finalize total ip).dstText = ip.dstText := by
  cases ip <;> exact ⟨hip, rfl, rfl, rfl⟩

theorem create_ok {pton : Pton} {a : IPPacketArgs} {src dst : String} (seqno : ℕ)
    (hdatalink : a.datalink ∈ datalinks)
    (hsrc : textForm pton a.af a.srcAddr = some src)
    (hdst : textForm pton a.af a.dstAddr = some dst) :
    ∃ h : Headers a.datalink a.data.length, create pton seqno a = .ok ⟨h.bytes, a.data⟩ ∧
      ∀ i, h.info i = { i with
        ip := if a.af = AF_INET then 4 else 6, proto := PacketInfo.IPProto.kUDP
        srcAddr := src, srcPort := a.srcPort.toNat
        dstAddr := dst, dstPort := a.dstPort.toNat } := by
  obtain ⟨link, hlink, hsize⟩ := writeDataLink_ok hdatalink
  obtain ⟨ip, hip, hcarries, hversion, rfl, rfl⟩ := writeIPHeader_ok seqno hsrc hdst
  have hfinal := finalize_reads (ip.bytes.length + 8 + a.data.length) hcarries
  have hlen : swap16 (writeUDPHeader a ip).len ≤ 8 + a.data.length := by
    simp only [writeUDPHeader]
    rw [swap16_swap16 (Nat.mod_lt _ (by decide))]
    exact Nat.mod_le _ _
  refine ⟨⟨link, _, writeUDPHeader a ip, hsize, hfinal.1, swap16_lt _, swap16_lt _, swap16_lt _,
    hlen⟩, ?_, ?_⟩
  · simp only [create, hlink, hip, writeProtoHeader, ↓reduceIte, ok_bind, pure_ok, Headers.bytes,
      UDPHdr.length_bytes]
  · intro i
    have hsport : swap16 (writeUDPHeader a ip).source = a.srcPort.toNat :=
      swap16_swap16 a.srcPort.toNat_lt
    have hdport : swap16 (writeUDPHeader a ip).dest = a.dstPort.toNat :=
      swap16_swap16 a.dstPort.toNat_lt
    simp only [Headers.info, hfinal, hversion, hsport, hdport]

end IPPacket

/-- A frame that was written is read back by the UDP parser and by the smart
parser of its link layer: one packet with the data, the ports, the IP version,
the protocol and the addresses in the form of `inet_ntop`. -/
theorem serialize_read_back (pton : Pton) (seqno : ℕ) (a : IPPacketArgs) (ts : Timeval)
    (src dst : String) (hdatalink : a.datalink ∈ IPPacket.datalinks)
    (hsrc : IPPacket.textForm pton a.af a.srcAddr = some src)
    (hdst : IPPacket.textForm pton a.af a.dstAddr = some dst) (hdata : a.data ≠ []) :
    ∃ p, IPPacket.create pton seqno a = .ok p ∧
      ∀ payload ∈ [UDP.payload a.datalink, Smart.payload a.datalink],
        Raw.packets payload p.serialize ts = .ok [⟨a.data, {
          ip := if a.af = AF_INET then 4 else 6, proto := 17, ts := ts
          srcAddr := src, srcPort := a.srcPort.toNat
          dstAddr := dst, dstPort := a.dstPort.toNat }⟩] := by
  obtain ⟨h, hcreate, hinfo⟩ := IPPacket.create_ok seqno hdatalink hsrc hdst
  refine ⟨_, hcreate, ?_⟩
  have hresult := hinfo { ts := ts }
  intro payload hpayload
  simp only [List.mem_cons, List.not_mem_nil, or_false] at hpayload
  rcases hpayload with rfl | rfl
  · rw [IPPacket.serialize, Raw.packets_read hdata (UDP.payload_read h hdata _), hresult]
    rfl
  · rw [IPPacket.serialize, Raw.packets_read hdata (Smart.payload_read h hdata _), hresult]
    rfl

/-- An IPv4 frame on Ethernet. -/
theorem serialize_read_back_ethernet :
    ∃ p, IPPacket.create
        ⟨fun s => if s = "10.0.0.1" then some #v[10, 0, 0, 1] else none, fun _ => none⟩ 0xabcdd
        { datalink := DLT_EN10MB, af := AF_INET, proto := 17, srcAddr := "10.0.0.1",
          srcPort := 5060, dstAddr := "10.0.0.1", dstPort := 5061, data := [1, 2, 3] } = .ok p ∧
      ∀ payload ∈ [UDP.payload DLT_EN10MB, Smart.payload DLT_EN10MB],
        Raw.packets payload p.serialize ⟨0, 0⟩ = .ok [⟨[1, 2, 3], {
          ip := 4, proto := 17, srcAddr := "10.0.0.1", srcPort := 5060, dstAddr := "10.0.0.1",
          dstPort := 5061 }⟩] := by
  have h := serialize_read_back
    ⟨fun s => if s = "10.0.0.1" then some #v[10, 0, 0, 1] else none, fun _ => none⟩ 0xabcdd
    { datalink := DLT_EN10MB, af := AF_INET, proto := 17, srcAddr := "10.0.0.1",
      srcPort := 5060, dstAddr := "10.0.0.1", dstPort := 5061, data := [1, 2, 3] } ⟨0, 0⟩
    "10.0.0.1" "10.0.0.1" (by decide) (by decide +kernel) (by decide +kernel) (by simp)
  simpa using h

end NetComponents.Pcap
