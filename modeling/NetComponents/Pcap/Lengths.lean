import NetComponents.Pcap.Checksums
import NetComponents.Pcap.OStream

/-!
# The length fields of a record

A record holds the size of its data in four places: `caplen` as 32 bits, and the lengths of the IP
and the UDP header as 16 bits. None of the functions that write them compares the size with the
room of the field.
-/

namespace NetComponents.Pcap

open Library

namespace Stream

/-- The stream takes `n` bytes more. -/
def Takes (s : Stream) (n : ℕ) : Prop :=
  s.good = true ∧ ∀ limit, s.limit = some limit → s.bytes.length + n ≤ limit

/-- The stream after the bytes it has taken. -/
def append (s : Stream) (bs : Bytes) : Stream := { s with bytes := s.bytes ++ bs }

@[simp] theorem append_good (s : Stream) (bs : Bytes) : (s.append bs).good = s.good := rfl

theorem append_append (s : Stream) (a b : Bytes) : (s.append a).append b = s.append (a ++ b) := by
  simp only [append, List.append_assoc]

theorem takes_append_iff {s : Stream} {bs : Bytes} {n : ℕ} :
    (s.append bs).Takes n ↔ s.Takes (bs.length + n) := by
  simp only [append, Takes, List.length_append, Nat.add_assoc]

theorem Takes.mono {s : Stream} {m n : ℕ} (h : s.Takes n) (hle : m ≤ n) : s.Takes m :=
  ⟨h.1, fun limit hlimit => by have := h.2 limit hlimit; omega⟩

theorem write_of_takes {s : Stream} {bs : Bytes} (h : s.Takes bs.length) :
    s.write bs = s.append bs := by
  obtain ⟨hgood, hroom⟩ := h
  obtain ⟨bytes, good, limit⟩ := s
  obtain rfl : good = true := hgood
  cases limit with
  | none => rfl
  | some limit => exact if_pos (hroom limit rfl)

theorem write_of_not_takes {s : Stream} {bs : Bytes} (h : ¬s.Takes bs.length) :
    (s.write bs).good = false := by
  unfold write
  cases hgood : s.good with
  | false =>
    rw [if_pos (by simp)]
    exact hgood
  | true =>
    rw [if_neg (by simp)]
    cases hlimit : s.limit with
    | none => exact absurd ⟨hgood, by simp [hlimit]⟩ h
    | some limit =>
      have hfull : ¬s.bytes.length + bs.length ≤ limit := by
        intro hroom
        refine h ⟨hgood, fun l hl => ?_⟩
        obtain rfl : limit = l := Option.some.inj (hlimit.symm.trans hl)
        exact hroom
      simp only [if_neg hfull]

end Stream

namespace IPPacket

theorem serializeTo_of_takes {p : IPPacket} {s : Stream} (h : s.Takes p.serialize.length) :
    p.serializeTo s = s.append p.serialize := by
  rw [serialize, List.length_append] at h
  have hbuf : s.Takes p.buf.length := h.mono (Nat.le_add_right _ _)
  unfold serializeTo
  rw [Stream.write_of_takes hbuf, if_neg (by simp [h.1]),
    Stream.write_of_takes (Stream.takes_append_iff.mpr h), Stream.append_append, serialize]

theorem serializeTo_of_not_takes {p : IPPacket} {s : Stream} (h : ¬s.Takes p.serialize.length) :
    (p.serializeTo s).good = false := by
  rw [serialize, List.length_append] at h
  unfold serializeTo
  by_cases hbuf : s.Takes p.buf.length
  · rw [Stream.write_of_takes hbuf, if_neg (by simp [hbuf.1])]
    exact Stream.write_of_not_takes fun hdata => h (Stream.takes_append_iff.mp hdata)
  · have hbad := Stream.write_of_not_takes hbuf
    rw [if_pos (by simp [hbad])]
    exact hbad

end IPPacket

namespace OStream

variable {pton : Pton} {o : OStream} {seqno : ℕ} {w : WriteArgs} {packet : IPPacket}

/-- The record of a packet. -/
theorem write_of_takes (hcreate : IPPacket.create pton seqno (packetArgs o.datalink w) = .ok packet)
    (htakes : o.out.Takes (16 + packet.serialize.length)) :
    o.write pton seqno w =
      (⟨o.datalink, o.total + 16 + packet.size % 2 ^ 32,
        o.out.append (recordHeader w.ts (packet.size % 2 ^ 32) ++ packet.serialize)⟩, .ok ()) := by
  have hhdr : o.out.Takes (recordHeader w.ts (packet.size % 2 ^ 32)).length := by
    rw [length_recordHeader]
    exact htakes.mono (Nat.le_add_right _ _)
  have hrest : (o.out.append (recordHeader w.ts (packet.size % 2 ^ 32))).Takes
      packet.serialize.length := by
    rwa [Stream.takes_append_iff, length_recordHeader]
  unfold write
  simp only [hcreate, Stream.write_of_takes hhdr, IPPacket.serializeTo_of_takes hrest,
    Stream.append_good, htakes.1, Stream.append_append]
  rfl

/-- A stream that does not take the record is no longer good, and the call throws. -/
theorem write_of_not_takes
    (hcreate : IPPacket.create pton seqno (packetArgs o.datalink w) = .ok packet)
    (htakes : ¬o.out.Takes (16 + packet.serialize.length)) :
    ∃ o' what, o.write pton seqno w = (o', .error (.exception what)) ∧ o'.out.good = false := by
  unfold write
  simp only [hcreate]
  by_cases hhdr : o.out.Takes (recordHeader w.ts (packet.size % 2 ^ 32)).length
  · have hrest : ¬(o.out.append (recordHeader w.ts (packet.size % 2 ^ 32))).Takes
        packet.serialize.length := by
      rwa [Stream.takes_append_iff, length_recordHeader]
    have hbad := IPPacket.serializeTo_of_not_takes hrest
    rw [Stream.write_of_takes hhdr, if_neg (by simp [hhdr.1]), if_pos (by rw [hbad]; rfl)]
    exact ⟨_, _, rfl, hbad⟩
  · have hbad := Stream.write_of_not_takes hhdr
    rw [if_pos (by rw [hbad]; rfl)]
    exact ⟨_, _, rfl, hbad⟩

/-- The call throws and has written nothing, or found the stream failing; or it has written a record
in which `caplen`, the IP length and the UDP length are the lengths of what they describe, and
`caplen` is at most the `snaplen` of the file header. -/
def LengthsTrue (o : OStream) (af : ℤ) : OStream × Exec Unit → Prop
  | (o', .error e) => (∃ what, e = .exception what) ∧ (o'.out = o.out ∨ o'.out.good = false)
  | (o', .ok ()) => ∃ hdr frame, o'.out.bytes = o.out.bytes ++ (hdr ++ frame) ∧
      hdr.length = 16 ∧ readLE (slice hdr 12 4) = frame.length ∧ frame.length ≤ 65535 ∧
      let ip := ipPacket o.datalink.toBitVec.toInt frame
      (af = AF_INET → readBE (slice ip 2 2) = ip.length ∧ readBE (slice ip 24 2) = ip.length - 20) ∧
      (af = AF_INET6 →
        readBE (slice ip 4 2) = ip.length - 40 ∧ readBE (slice ip 44 2) = ip.length - 40)

end OStream

namespace IPPacket

/-- What a frame needs in front of its data. -/
def headersSize (datalink af : ℤ) : ℕ :=
  Datalink.headerSize datalink 0 + ((if af = AF_INET then 20 else 40) + 8)

theorem length_writeIPHeader {pton : Pton} {seqno : ℕ} {a : IPPacketArgs} {ip : NetHdr}
    (h : writeIPHeader pton seqno a IPPROTO_UDP = .ok ip) :
    ip.bytes.length = if a.af = AF_INET then 20 else 40 := by
  by_cases h4 : a.af = AF_INET
  · obtain ⟨hdr, rfl, -⟩ := writeIPHeader_v4 h4 h
    rw [if_pos h4]
    exact hdr.length_bytes
  · by_cases h6 : a.af = AF_INET6
    · obtain ⟨hdr, rfl⟩ := writeIPHeader_v6 h6 h
      rw [if_neg h4]
      exact hdr.length_bytes
    · rw [writeIPHeader, if_neg h4, if_neg h6] at h
      cases h

theorem length_finalize (total : ℕ) (ip : NetHdr) :
    (finalize total ip).bytes.length = ip.bytes.length := by
  cases ip with
  | v4 hdr => exact (IPHdr.length_bytes _).trans hdr.length_bytes.symm
  | v6 hdr => exact (IP6Hdr.length_bytes _).trans hdr.length_bytes.symm

theorem length_frame {pton : Pton} {seqno : ℕ} {a : IPPacketArgs} {p : IPPacket}
    (hcreate : create pton seqno a = .ok p) :
    p.serialize.length = headersSize a.datalink a.af + a.data.length ∧
      (ipPacket a.datalink p.serialize).length =
        (if a.af = AF_INET then 20 else 40) + (8 + a.data.length) := by
  obtain ⟨link, ip, hlink, hip, hframe⟩ := create_parts hcreate
  obtain ⟨link', hlink', hsize⟩ := writeDataLink_ok (mem_datalinks hlink)
  cases hlink.symm.trans hlink'
  have hlength := length_writeIPHeader hip
  rw [ipPacket, hsize, headersSize, hsize, ← hlength, hframe, List.drop_left]
  simp only [List.length_append, length_finalize, UDPHdr.length_bytes]
  exact ⟨by omega, trivial⟩

/-- The lengths in the headers of an IPv4 frame are true as long as they fit. -/
theorem lengths_v4 {pton : Pton} {seqno : ℕ} {a : IPPacketArgs} {p : IPPacket}
    (haf : a.af = AF_INET) (hdata : a.data.length ≤ 65507)
    (hcreate : create pton seqno a = .ok p) :
    readBE (slice (ipPacket a.datalink p.serialize) 2 2) = 28 + a.data.length ∧
      readBE (slice (ipPacket a.datalink p.serialize) 24 2) = 8 + a.data.length := by
  obtain ⟨ip, hip, hpacket⟩ := ipPacket_serialize hcreate
  obtain ⟨hdr, rfl, -⟩ := writeIPHeader_v4 haf hip
  have hlength : (NetHdr.v4 hdr).bytes.length = 20 := hdr.length_bytes
  rw [hpacket, finalize_v4, hlength]
  simp only [NetHdr.bytes]
  constructor
  · rw [slice_ip_header _ _ _ (by decide), IPHdr.slice_totLen, readBE_le_two,
      swap16_swap16 (Nat.mod_lt _ (by decide)), Nat.mod_eq_of_lt (by omega)]
  · rw [slice_ip_udp _ _ _ (by decide : 4 + 2 ≤ 8), UDPHdr.slice_len, readBE_le_two, swap16_len,
      Nat.mod_eq_of_lt (by omega)]

theorem create_unsupported (pton : Pton) (seqno : ℕ) {a : IPPacketArgs}
    (hdatalink : a.datalink ∉ datalinks) :
    ∃ what, create pton seqno a = .error (.exception what) := by
  refine ⟨"IPPacket: unsupported datalink=" ++ toString a.datalink, ?_⟩
  rw [create, writeDataLink_unsupported hdatalink]
  rfl

end IPPacket

namespace OStream

variable {pton : Pton} {o : OStream} {seqno : ℕ} {w : WriteArgs} {packet : IPPacket}

/-- A constructor of the packet that throws leaves nothing behind. -/
theorem lengthsTrue_of_throws {what : String}
    (hcreate : IPPacket.create pton seqno (packetArgs o.datalink w) = .error (.exception what)) :
    LengthsTrue o w.af (o.write pton seqno w) := by
  unfold write
  rw [hcreate]
  exact ⟨⟨what, rfl⟩, .inl rfl⟩

/-- The record has true lengths if and only if it is one of IPv4 and fits into `snaplen`. -/
theorem lengthsTrue_record_iff
    (hcreate : IPPacket.create pton seqno (packetArgs o.datalink w) = .ok packet)
    (hw : Parsable pton w) (htakes : o.out.Takes (16 + packet.serialize.length)) :
    LengthsTrue o w.af (o.write pton seqno w) ↔
      w.af = AF_INET ∧ packet.serialize.length ≤ 65535 := by
  rw [write_of_takes hcreate htakes]
  constructor
  · rintro ⟨hdr, frame, hbytes, hhdr, -, hsnaplen, hfields⟩
    have hboth := List.append_inj (List.append_cancel_left hbytes) (by rw [hhdr]; simp)
    obtain ⟨-, rfl⟩ := hboth
    refine ⟨?_, hsnaplen⟩
    by_contra h4
    have h6 : w.af = AF_INET6 := by
      by_contra h6
      have hsrc := hw.1
      rw [IPPacket.textForm, if_neg h4, if_neg h6] at hsrc
      cases hsrc
    obtain ⟨hplen, hlength⟩ := IPPacket.plen_serialize h6 hcreate
    have htrue := (hfields.2 h6).1
    rw [show o.datalink.toBitVec.toInt = (packetArgs o.datalink w).datalink from rfl, hplen,
      hlength] at htrue
    omega
  · rintro ⟨h4, hsnaplen⟩
    obtain ⟨hframe, hip⟩ := IPPacket.length_frame hcreate
    have hargs : (packetArgs o.datalink w).af = AF_INET := h4
    rw [hargs, if_pos rfl] at hip
    rw [hargs, IPPacket.headersSize, if_pos rfl] at hframe
    obtain ⟨htotLen, hudpLen⟩ := IPPacket.lengths_v4 hargs (by omega) hcreate
    have hlength : (ipPacket o.datalink.toBitVec.toInt packet.serialize).length =
        28 + w.data.length := by
      rw [← Nat.add_assoc] at hip
      exact hip
    have hcaplen : readLE (slice (recordHeader w.ts (packet.size % 2 ^ 32)) 12 4) =
        packet.serialize.length := by
      have hfield : slice (recordHeader w.ts (packet.size % 2 ^ 32)) 12 4 =
          le 4 (packet.size % 2 ^ 32) :=
        slice_field (a := le 4 w.ts.sec ++ le 4 w.ts.usec ++ le 4 (packet.size % 2 ^ 32)) (c := [])
          (by simp [recordHeader]) rfl rfl
      rw [← packet.length_serialize] at hfield ⊢
      rw [hfield, readLE_le]
      omega
    refine ⟨_, _, rfl, length_recordHeader _ _, hcaplen, hsnaplen, ?_, ?_⟩
    · intro _
      rw [hlength]
      exact ⟨htotLen, hudpLen.trans (by simp only [packetArgs]; omega)⟩
    · intro h6
      rw [h4] at h6
      exact absurd h6 (by decide)

/-- A call whose stream does not take the record throws. -/
theorem lengthsTrue_of_not_takes
    (hcreate : IPPacket.create pton seqno (packetArgs o.datalink w) = .ok packet)
    (htakes : ¬o.out.Takes (16 + packet.serialize.length)) :
    LengthsTrue o w.af (o.write pton seqno w) := by
  obtain ⟨o', what, hwrite, hbad⟩ := write_of_not_takes hcreate htakes
  rw [hwrite]
  exact ⟨⟨what, rfl⟩, .inr hbad⟩

/-- Exactly these calls do not write wrong lengths: those that throw, and those of IPv4 whose frame
fits into `snaplen`. On a stream that does not fail, a call that throws has written nothing. -/
theorem lengthsTrue_iff (pton : Pton) (o : OStream) (seqno : ℕ) (w : WriteArgs) :
    (LengthsTrue o w.af (o.write pton seqno w) ↔
      o.datalink.toBitVec.toInt ∉ IPPacket.datalinks ∨ ¬Parsable pton w ∨
      ¬o.out.Takes
        (16 + (IPPacket.headersSize o.datalink.toBitVec.toInt w.af + w.data.length)) ∨
      w.af = AF_INET ∧
        IPPacket.headersSize o.datalink.toBitVec.toInt w.af + w.data.length ≤ 65535) ∧
      ∀ bytes, o.out = .reliable bytes → ∀ o' e, o.write pton seqno w = (o', .error e) →
        o' = o := by
  refine ⟨?_, fun bytes hout o' e hthrows => write_throws pton hout hthrows⟩
  by_cases hdatalink : o.datalink.toBitVec.toInt ∈ IPPacket.datalinks
  · by_cases hw : Parsable pton w
    · obtain ⟨packet, hcreate⟩ := create_parsable pton seqno hdatalink hw
      have hlength : packet.serialize.length =
          IPPacket.headersSize o.datalink.toBitVec.toInt w.af + w.data.length :=
        (IPPacket.length_frame hcreate).1
      rw [← hlength]
      by_cases htakes : o.out.Takes (16 + packet.serialize.length)
      · rw [lengthsTrue_record_iff hcreate hw htakes]
        tauto
      · have htrue := lengthsTrue_of_not_takes hcreate htakes
        tauto
    · obtain ⟨what, hcreate⟩ := create_throws pton seqno hdatalink hw
      have htrue := lengthsTrue_of_throws hcreate
      tauto
  · obtain ⟨what, hcreate⟩ := IPPacket.create_unsupported pton seqno
      (a := packetArgs o.datalink w) hdatalink
    have htrue := lengthsTrue_of_throws hcreate
    tauto

/-- An IPv4 packet of 65536 bytes. -/
theorem lengths_wrong_large :
    ¬∀ pton o seqno w, LengthsTrue o w.af (o.write pton seqno w) := by
  intro hall
  have htrue := hall IPPacket.hosts ⟨12, 24, .reliable []⟩ 0xabcdd
    ⟨⟨1, 2⟩, AF_INET, 17, "192.168.0.1", 60000, "63.0.0.2", 5060, List.replicate 65508 0⟩
  have hw : Parsable IPPacket.hosts
      ⟨⟨1, 2⟩, AF_INET, 17, "192.168.0.1", 60000, "63.0.0.2", 5060, List.replicate 65508 0⟩ :=
    ⟨rfl, rfl⟩
  obtain ⟨packet, hcreate⟩ := create_parsable IPPacket.hosts 0xabcdd
    (by decide : (12 : UInt32).toBitVec.toInt ∈ IPPacket.datalinks) hw
  have hfits := ((lengthsTrue_record_iff (o := ⟨12, 24, .reliable []⟩) hcreate hw
    ⟨rfl, fun limit h => nomatch h⟩).mp htrue).2
  have hlength := (IPPacket.length_frame hcreate).1
  have hsize : (List.replicate 65508 (0 : UInt8)).length = 65508 := List.length_replicate
  have hheaders : IPPacket.headersSize (12 : UInt32).toBitVec.toInt AF_INET = 28 := rfl
  simp only [packetArgs, hsize, hheaders] at hlength
  omega

end OStream

end NetComponents.Pcap
