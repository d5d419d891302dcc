import NetComponents.Library.Machine
import NetComponents.Pcap.ReadBack

/-!
# Writing pcap files

`OStream` writes a file header when it is constructed and a record for every
`write`. The length in a record header comes from `IPPacket::size`, the bytes
behind it from `IPPacket::serialize`, and `total()` is counted separately. A
call that throws has a state too: the object lives on, and so does the stream.
-/

namespace NetComponents.Pcap

open Library

/-- A `std::ostream` on a device that takes `limit` bytes, if there is a limit.
Once a write went wrong, the stream takes nothing any more. -/
structure Stream where
  bytes : Bytes
  good : Bool
  limit : Option ℕ
  deriving DecidableEq, Repr

namespace Stream

def write (s : Stream) (bs : Bytes) : Stream :=
  if !s.good then s
  else
    match s.limit with
    | none => { s with bytes := s.bytes ++ bs }
    | some limit =>
      if s.bytes.length + bs.length ≤ limit then { s with bytes := s.bytes ++ bs }
      else { s with bytes := (s.bytes ++ bs).take limit, good := false }

/-- A stream that does not fail. -/
def reliable (bytes : Bytes) : Stream := ⟨bytes, true, none⟩

@[simp] theorem write_reliable (bytes bs : Bytes) :
    (reliable bytes).write bs = reliable (bytes ++ bs) := rfl

@[simp] theorem good_reliable (bytes : Bytes) : (reliable bytes).good = true := rfl

end Stream

namespace IPPacket

def dataLinkSize (datalink : ℤ) : Exec ℕ :=
  if datalink = DLT_RAW then .ok 0
  else if datalink = DLT_NULL ∨ datalink = DLT_LOOP then .ok 4
  else if datalink = DLT_EN10MB then .ok 14
  else .error (.exception ("IPPacket: unsupported datalink=" ++ toString datalink))

/-- `serialize` to a stream: the data are written only behind a complete header. -/
def serializeTo (p : IPPacket) (out : Stream) : Stream :=
  let out := out.write p.buf
  if !out.good then out else out.write p.data

theorem length_serialize (p : IPPacket) : p.serialize.length = p.size := by
  simp [serialize, size]

theorem serializeTo_reliable (p : IPPacket) (bytes : Bytes) :
    p.serializeTo (.reliable bytes) = .reliable (bytes ++ p.serialize) := by
  simp [serializeTo, serialize]

end IPPacket

/-- `OStream`, without the times of its creation and of its last write. Sizes are
natural numbers, since no stream holds `2 ^ 64` bytes. -/
structure OStream where
  datalink : UInt32
  total : ℕ
  out : Stream
  deriving DecidableEq, Repr

/-- The arguments of `OStream::write`. -/
structure WriteArgs where
  ts : Timeval
  af : ℤ
  proto : ℤ
  srcAddr : String
  srcPort : UInt16
  dstAddr : String
  dstPort : UInt16
  data : Bytes

namespace OStream

def testDataLink (datalink : UInt32) : Exec UInt32 :=
  match IPPacket.dataLinkSize datalink.toBitVec.toInt with
  | .ok _ => .ok datalink
  | .error (.exception _) =>
    .error (.exception ("pcap.ostream: unsupported datalink=" ++ toString datalink))
  | .error e => .error e

/-- `pcap_file_header` -/
def fileHeader (datalink : UInt32) : Bytes :=
  le 4 0xa1b2c3d4 ++ le 2 2 ++ le 2 4 ++ le 4 0 ++ le 4 0 ++ le 4 0xFFFF ++ le 4 datalink.toNat

@[simp] theorem length_fileHeader (datalink : UInt32) : (fileHeader datalink).length = 24 := by
  simp [fileHeader]

/-- The constructor, which calls `init`. -/
def create (out : Stream) (datalink : UInt32) : Exec OStream := do
  let datalink ← testDataLink datalink
  let out := out.write (fileHeader datalink)
  if out.good then return ⟨datalink, (fileHeader datalink).length, out⟩
  else throw (.exception "pcap.ostream: init failed")

/-- `pcaprec_hdr_s` -/
def recordHeader (ts : Timeval) (len : ℕ) : Bytes :=
  le 4 ts.sec ++ le 4 ts.usec ++ le 4 len ++ le 4 len

@[simp] theorem length_recordHeader (ts : Timeval) (len : ℕ) :
    (recordHeader ts len).length = 16 := by
  simp [recordHeader]

/-- What `write` passes to the constructor of `IPPacket`. -/
def packetArgs (datalink : UInt32) (w : WriteArgs) : IPPacketArgs where
  datalink := datalink.toBitVec.toInt
  af := w.af
  proto := w.proto
  srcAddr := w.srcAddr
  srcPort := w.srcPort
  dstAddr := w.dstAddr
  dstPort := w.dstPort
  data := w.data

variable (pton : Pton)

/-- `write`, with the state it leaves behind also where it throws. The number
`seqno` is what the counter of all written packets holds before the call. -/
def write (o : OStream) (seqno : ℕ) (w : WriteArgs) : OStream × Exec Unit :=
  match IPPacket.create pton seqno (packetArgs o.datalink w) with
  | .error e => (o, .error e)
  | .ok packet =>
    let len := packet.size % 2 ^ 32
    let out := o.out.write (recordHeader w.ts len)
    if !out.good then
      ({ o with out := out },
        .error (.exception "pcap.ostream: failed to write packet header"))
    else
      let total := o.total + 16
      let out := packet.serializeTo out
      if !out.good then
        ({ o with total := total, out := out },
          .error (.exception "pcap.ostream: failed to write packet data"))
      else ({ o with total := total + len, out := out }, .ok ())

/-- Call after call on one object. The output tells how each call ended. -/
def machine : Machine Stop OStream (ℕ × WriteArgs) (Exec Unit) where
  step o call := .ok ((o.write pton call.1 call.2).1, [(o.write pton call.1 call.2).2])

/-- The frame that a call writes, unless it throws. -/
def frame (datalink : UInt32) (call : ℕ × WriteArgs) : Option (Timeval × Bytes) :=
  match IPPacket.create pton call.1 (packetArgs datalink call.2) with
  | .ok packet => some (call.2.ts, packet.serialize)
  | .error _ => none

/-- A record: its header holds the length of the frame behind it, twice. -/
def record (x : Timeval × Bytes) : Bytes := recordHeader x.1 x.2.length ++ x.2

/-- The addresses of a call can be parsed in its address family. -/
def Parsable (w : WriteArgs) : Prop :=
  (IPPacket.textForm pton w.af w.srcAddr).isSome = true ∧
    (IPPacket.textForm pton w.af w.dstAddr).isSome = true

/-- How a call ends on a stream that does not fail: it writes a frame, or it throws
because of the address family or an address. -/
inductive Ends (datalink : UInt32) (call : ℕ × WriteArgs) (result : Exec Unit) : Prop where
  | wrote (hparsable : Parsable pton call.2) (hframe : (frame pton datalink call).isSome = true)
      (hresult : result = .ok ())
  | threw (hunparsable : ¬ Parsable pton call.2) (hframe : frame pton datalink call = none)
      (hresult : ∃ what, result = .error (.exception what))

theorem dataLinkSize_ok {datalink : ℤ} (h : datalink ∈ IPPacket.datalinks) :
    ∃ size, IPPacket.dataLinkSize datalink = .ok size := by
  simp only [IPPacket.datalinks, List.mem_cons, List.not_mem_nil, or_false] at h
  rcases h with rfl | rfl | rfl | rfl <;> exact ⟨_, rfl⟩

theorem create_reliable {datalink : UInt32} (h : datalink.toBitVec.toInt ∈ IPPacket.datalinks) :
    create (.reliable []) datalink = .ok ⟨datalink, 24, .reliable (fileHeader datalink)⟩ := by
  obtain ⟨size, hsize⟩ := dataLinkSize_ok h
  have htest : testDataLink datalink = .ok datalink := by
    unfold testDataLink
    rw [hsize]
  unfold create
  rw [htest]
  simp only [ok_bind]
  rw [Stream.write_reliable, List.nil_append]
  simp only [Stream.good_reliable, length_fileHeader, pure_ok, if_true]

/-- Without a text form of both addresses there is no IP header. -/
theorem writeIPHeader_throws (seqno : ℕ) (datalink : UInt32) {w : WriteArgs}
    (hw : ¬ Parsable pton w) (protocol : ℤ) :
    ∃ what, IPPacket.writeIPHeader pton seqno (packetArgs datalink w) protocol =
      .error (.exception what) := by
  unfold Parsable IPPacket.textForm at hw
  unfold IPPacket.writeIPHeader
  by_cases h4 : w.af = AF_INET
  · simp only [packetArgs, h4, if_true, Option.isSome_map, not_and] at hw ⊢
    cases hsrc : pton.ipv4 w.srcAddr with
    | none => exact ⟨_, rfl⟩
    | some src =>
      cases hdst : pton.ipv4 w.dstAddr with
      | none => exact ⟨_, rfl⟩
      | some dst => simp [hsrc, hdst] at hw
  · by_cases h6 : w.af = AF_INET6
    · have hne : AF_INET6 ≠ AF_INET := by decide
      simp only [packetArgs, h6, hne, if_false, if_true, Option.isSome_map, not_and] at hw ⊢
      cases hsrc : pton.ipv6 w.srcAddr with
      | none => exact ⟨_, rfl⟩
      | some src =>
        cases hdst : pton.ipv6 w.dstAddr with
        | none => exact ⟨_, rfl⟩
        | some dst => simp [hsrc, hdst] at hw
    · simp only [packetArgs, h4, h6, if_false]
      exact ⟨_, rfl⟩

theorem create_throws (seqno : ℕ) {datalink : UInt32} {w : WriteArgs}
    (hdatalink : datalink.toBitVec.toInt ∈ IPPacket.datalinks) (hw : ¬ Parsable pton w) :
    ∃ what, IPPacket.create pton seqno (packetArgs datalink w) = .error (.exception what) := by
  obtain ⟨link, hlink, -⟩ := IPPacket.writeDataLink_ok (a := packetArgs datalink w) hdatalink
  obtain ⟨what, hwhat⟩ := writeIPHeader_throws pton seqno datalink hw IPPROTO_UDP
  refine ⟨what, ?_⟩
  unfold IPPacket.create
  simp only [hlink, hwhat, ok_bind]
  rfl

theorem create_parsable (seqno : ℕ) {datalink : UInt32} {w : WriteArgs}
    (hdatalink : datalink.toBitVec.toInt ∈ IPPacket.datalinks) (hw : Parsable pton w) :
    ∃ packet, IPPacket.create pton seqno (packetArgs datalink w) = .ok packet := by
  obtain ⟨src, hsrc⟩ := Option.isSome_iff_exists.mp hw.1
  obtain ⟨dst, hdst⟩ := Option.isSome_iff_exists.mp hw.2
  obtain ⟨h, hcreate, -⟩ :=
    IPPacket.create_ok (a := packetArgs datalink w) seqno hdatalink hsrc hdst
  exact ⟨_, hcreate⟩

/-- The headers of a frame have at most 62 bytes. -/
theorem length_frame_le {datalink : UInt32} {call : ℕ × WriteArgs} {x : Timeval × Bytes}
    (hdatalink : datalink.toBitVec.toInt ∈ IPPacket.datalinks)
    (h : frame pton datalink call = some x) : x.2.length ≤ 62 + call.2.data.length := by
  by_cases hw : Parsable pton call.2
  · obtain ⟨src, hsrc⟩ := Option.isSome_iff_exists.mp hw.1
    obtain ⟨dst, hdst⟩ := Option.isSome_iff_exists.mp hw.2
    obtain ⟨hdr, hcreate, -⟩ :=
      IPPacket.create_ok (a := packetArgs datalink call.2) call.1 hdatalink hsrc hdst
    have hlink : hdr.link.length ≤ 14 := by
      rw [← hdr.headerSize_eq 0]
      unfold Datalink.headerSize
      split_ifs with h₁ h₂ h₃ h₄
      · omega
      · omega
      · omega
      · rw [show datalink.toBitVec.toInt = DLT_LINUX_SLL from h₄] at hdatalink
        exact absurd hdatalink (by decide)
      · omega
    have hip : hdr.ip.bytes.length ≤ 40 := by
      cases hdr.ip with
      | v4 ip => simp [NetHdr.bytes]
      | v6 ip => simp [NetHdr.bytes]
    unfold frame at h
    rw [hcreate] at h
    cases h
    simp only [IPPacket.serialize, Headers.bytes, List.length_append, UDPHdr.length_bytes,
      packetArgs]
    omega
  · obtain ⟨what, hcreate⟩ := create_throws pton call.1 hdatalink hw
    unfold frame at h
    rw [hcreate] at h
    cases h

/-- One call on a stream that does not fail and whose bytes were counted. -/
theorem write_effect {datalink : UInt32} (hdatalink : datalink.toBitVec.toInt ∈ IPPacket.datalinks)
    (bytes : Bytes) (call : ℕ × WriteArgs)
    (hsize : ∀ x, frame pton datalink call = some x → x.2.length < 2 ^ 32) :
    ∃ result,
      write pton ⟨datalink, bytes.length, .reliable bytes⟩ call.1 call.2 =
        (⟨datalink, (bytes ++ (frame pton datalink call).toList.flatMap record).length,
          .reliable (bytes ++ (frame pton datalink call).toList.flatMap record)⟩, result) ∧
      Ends pton datalink call result := by
  by_cases hw : Parsable pton call.2
  · obtain ⟨packet, hcreate⟩ := create_parsable pton call.1 hdatalink hw
    have hframe : frame pton datalink call = some (call.2.ts, packet.serialize) := by
      unfold frame
      rw [hcreate]
    have hlen : packet.size % 2 ^ 32 = packet.serialize.length := by
      have hlt := hsize _ hframe
      rw [packet.length_serialize] at hlt ⊢
      exact Nat.mod_eq_of_lt hlt
    refine ⟨.ok (), ?_, .wrote hw (by rw [hframe]; rfl) rfl⟩
    unfold write
    simp only [hcreate, hlen, hframe, Stream.write_reliable, Stream.good_reliable,
      IPPacket.serializeTo_reliable, Bool.not_true, Bool.false_eq_true, if_false]
    simp [record, Nat.add_assoc]
  · obtain ⟨what, hcreate⟩ := create_throws pton call.1 hdatalink hw
    have hframe : frame pton datalink call = none := by
      unfold frame
      rw [hcreate]
    refine ⟨.error (.exception what), ?_, .threw hw hframe ⟨what, rfl⟩⟩
    unfold write
    simp [hcreate, hframe]

theorem run_writes {datalink : UInt32} (hdatalink : datalink.toBitVec.toInt ∈ IPPacket.datalinks)
    (calls : List (ℕ × WriteArgs)) (bytes : Bytes)
    (hsize : ∀ call ∈ calls, ∀ x, frame pton datalink call = some x → x.2.length < 2 ^ 32) :
    ∃ results,
      (machine pton).run ⟨datalink, bytes.length, .reliable bytes⟩ calls =
        .ok (⟨datalink, (bytes ++ (calls.filterMap (frame pton datalink)).flatMap record).length,
          .reliable (bytes ++ (calls.filterMap (frame pton datalink)).flatMap record)⟩,
          results) ∧
      List.Forall₂ (Ends pton datalink) calls results := by
  induction calls generalizing bytes with
  | nil => exact ⟨[], by simp, .nil⟩
  | cons call calls ih =>
    obtain ⟨result, hwrite, hends⟩ :=
      write_effect pton hdatalink bytes call (hsize call (by simp))
    have hstep : (machine pton).step ⟨datalink, bytes.length, .reliable bytes⟩ call =
        .ok (⟨datalink, (bytes ++ (frame pton datalink call).toList.flatMap record).length,
          .reliable (bytes ++ (frame pton datalink call).toList.flatMap record)⟩, [result]) := by
      simp only [machine, hwrite]
    obtain ⟨results, hrun, hall⟩ := ih (bytes ++ (frame pton datalink call).toList.flatMap record)
      (fun c hc => hsize c (by simp [hc]))
    have hframes : (frame pton datalink call).toList.flatMap record ++
          (calls.filterMap (frame pton datalink)).flatMap record =
        ((call :: calls).filterMap (frame pton datalink)).flatMap record := by
      cases hframe : frame pton datalink call <;> simp [hframe]
    rw [List.append_assoc, hframes] at hrun
    exact ⟨result :: results, (machine pton).run_cons hstep hrun, .cons hends hall⟩

/-- A call that throws on a stream that does not fail changes nothing. -/
theorem write_throws {o o' : OStream} {seqno : ℕ} {w : WriteArgs} {e : Stop} {bytes : Bytes}
    (hout : o.out = .reliable bytes) (h : o.write pton seqno w = (o', .error e)) : o' = o := by
  unfold write at h
  cases hcreate : IPPacket.create pton seqno (packetArgs o.datalink w) with
  | error e' =>
    simp only [hcreate, Prod.mk.injEq] at h
    exact h.1.symm
  | ok packet =>
    simp [hcreate, hout, IPPacket.serializeTo_reliable] at h

/-- The file that a run of `write` calls leaves on a stream that does not fail is
its header and one record for each call that did not throw, in order. The header
of a record holds the length of its frame, twice; `total()` is the number of
bytes on the stream; a call throws only because of its family or its addresses,
and then nothing has changed. -/
theorem writes_well_formed (datalink : UInt32)
    (hdatalink : datalink.toBitVec.toInt ∈ IPPacket.datalinks) (calls : List (ℕ × WriteArgs))
    (hsize : ∀ call ∈ calls, ∀ x, frame pton datalink call = some x → x.2.length < 2 ^ 32) :
    ∃ o o' results, create (.reliable []) datalink = .ok o ∧
      (machine pton).run o calls = .ok (o', results) ∧
      o'.out = .reliable (fileHeader datalink ++
        (calls.filterMap (frame pton datalink)).flatMap record) ∧
      (fileHeader datalink).length = 24 ∧
      (∀ x ∈ calls.filterMap (frame pton datalink), ∃ hdr, record x = hdr ++ x.2 ∧
        hdr.length = 16 ∧ readNat hdr 8 4 = .ok x.2.length ∧ readNat hdr 12 4 = .ok x.2.length) ∧
      o'.total = o'.out.bytes.length ∧
      List.Forall₂ (Ends pton datalink) calls results ∧
      ∀ earlier call, earlier ++ [call] <+: calls → ∀ o₁ o₂ results₁ e,
        (machine pton).run o earlier = .ok (o₁, results₁) →
        o₁.write pton call.1 call.2 = (o₂, .error e) → o₂ = o₁ := by
  obtain ⟨results, hrun, hall⟩ := run_writes pton hdatalink calls (fileHeader datalink) hsize
  refine ⟨_, _, results, create_reliable hdatalink, hrun, rfl, by simp, ?_, rfl, hall, ?_⟩
  · intro x hx
    obtain ⟨call, hcall, hframe⟩ := List.mem_filterMap.mp hx
    have hlt : x.2.length < 256 ^ 4 := hsize call hcall x hframe
    refine ⟨recordHeader x.1 x.2.length, rfl, length_recordHeader _ _, ?_, ?_⟩
    · apply readNat_field (a := le 4 x.1.sec ++ le 4 x.1.usec) (c := le 4 x.2.length) _ rfl hlt
      simp [recordHeader]
    · apply readNat_field (a := le 4 x.1.sec ++ le 4 x.1.usec ++ le 4 x.2.length) (c := []) _
        rfl hlt
      simp [recordHeader]
  · intro earlier call hinitial o₁ o₂ results₁ e hearlier hwrite
    have hsize' : ∀ c ∈ earlier, ∀ x, frame pton datalink c = some x → x.2.length < 2 ^ 32 :=
      fun c hc => hsize c (hinitial.subset (by simp [hc]))
    obtain ⟨results₂, hrun₂, -⟩ := run_writes pton hdatalink earlier (fileHeader datalink) hsize'
    obtain ⟨rfl, -⟩ := Prod.mk.inj (Except.ok.inj (hrun₂.symm.trans hearlier))
    exact write_throws pton rfl hwrite

/-- A frame of one byte of data on `DLT_RAW`, and a call with an address that cannot
be parsed. -/
theorem writes_well_formed_two_calls :
    ∃ o o' results, create (.reliable []) 12 = .ok o ∧
      (machine ⟨fun s => if s = "10.0.0.1" then some #v[10, 0, 0, 1] else none,
        fun _ => none⟩).run o
          [(0, ⟨⟨1, 2⟩, AF_INET, 17, "10.0.0.1", 1000, "10.0.0.1", 2000, [7]⟩),
            (1, ⟨⟨1, 3⟩, AF_INET, 17, "10.0.0.1", 1000, "localhost", 2000, [8]⟩)] =
        .ok (o', results) ∧
      o'.total = o'.out.bytes.length := by
  have hdatalink : (12 : UInt32).toBitVec.toInt ∈ IPPacket.datalinks := by decide
  obtain ⟨o, o', results, hcreate, hrun, -, -, -, htotal, -, -⟩ := writes_well_formed
    ⟨fun s => if s = "10.0.0.1" then some #v[10, 0, 0, 1] else none, fun _ => none⟩ 12 hdatalink
    [(0, ⟨⟨1, 2⟩, AF_INET, 17, "10.0.0.1", 1000, "10.0.0.1", 2000, [7]⟩),
      (1, ⟨⟨1, 3⟩, AF_INET, 17, "10.0.0.1", 1000, "localhost", 2000, [8]⟩)]
    (by
      intro call hcall x hframe
      have hlen := length_frame_le _ hdatalink hframe
      simp only [List.mem_cons, List.not_mem_nil, or_false] at hcall
      rcases hcall with rfl | rfl
      · simp only [List.length_cons, List.length_nil] at hlen
        omega
      · simp only [List.length_cons, List.length_nil] at hlen
        omega)
  exact ⟨o, o', results, hcreate, hrun, htotal⟩

end OStream
end NetComponents.Pcap
