import NetComponents.Livecapture.Delivery
import NetComponents.Pcap.OStream

/-!
# Replaying a file

A sniffer whose interface is a file name reads the frames of the file when its timer fires. For a
file that `OStream` has written, and a sniffer that parses UDP, these are the data that were passed
to `OStream::write`. The reader of the file belongs to libpcap and is a parameter.
-/

namespace NetComponents.Pcap

open Library

/-- libpcap on the bytes of a file: the link layer, if it can be opened, and the results of
`pcap_next_ex` behind a filter. -/
structure Savefile where
  datalink : Bytes → Option ℤ
  next : Bytes → String → List NextEx

/-- A record that the format can hold: its times, and a length within the snapshot length. -/
def Storable (x : Timeval × Bytes) : Prop :=
  x.1.sec < 2 ^ 32 ∧ x.1.usec < 1000000 ∧ x.2.length ≤ 0xFFFF

/-- What the documentation of the format and of `pcap_next_ex` says of a file with these records:
without a filter they are returned one by one, and then the end of the file. -/
structure Savefile.Reads (lib : Savefile) : Prop where
  datalink : ∀ (datalink : UInt32) (records : List (Timeval × Bytes)),
    datalink.toBitVec.toInt ∈ IPPacket.datalinks → (∀ x ∈ records, Storable x) →
    lib.datalink (OStream.fileHeader datalink ++ records.flatMap OStream.record) =
      some datalink.toBitVec.toInt
  next : ∀ (datalink : UInt32) (records : List (Timeval × Bytes)),
    datalink.toBitVec.toInt ∈ IPPacket.datalinks → (∀ x ∈ records, Storable x) →
    ∃ ts, lib.next (OStream.fileHeader datalink ++ records.flatMap OStream.record) "" =
      records.map (fun x => .packet x.2 x.1) ++ [.eof ts]

/-- A reader of the records behind the header of a file. -/
def Savefile.readRecords : ℕ → Bytes → List NextEx
  | 0, _ => []
  | fuel + 1, bs =>
    if bs = [] then [.eof ⟨0, 0⟩]
    else if bs.length < 16 + readLE (slice bs 8 4) then [.failed none]
    else
      .packet (slice bs 16 (readLE (slice bs 8 4)))
        ⟨readLE (slice bs 0 4), readLE (slice bs 4 4)⟩ ::
          readRecords fuel (bs.drop (16 + readLE (slice bs 8 4)))

/-- A reader of the files of a host with the same byte order, that knows no filters. -/
def Savefile.plain : Savefile where
  datalink file :=
    if file.length < 24 then none else some (BitVec.ofNat 32 (readLE (slice file 20 4))).toInt
  next file _ := readRecords file.length (file.drop 24)

/-- A parser without a state: the payload method of its class. -/
def IParser.ofPayload (payload : Payload) : IParser Unit where
  packets _ data ts := ((), Raw.packets payload data ts)

/-- The packet that a written frame is read back as: none if the call of `write` throws, and none
without data. -/
def replayed (pton : Pton) (w : WriteArgs) : Option Packet :=
  match IPPacket.textForm pton w.af w.srcAddr, IPPacket.textForm pton w.af w.dstAddr with
  | some src, some dst =>
    if w.data = [] then none
    else some ⟨w.data, {
      ip := if w.af = AF_INET then PacketInfo.IPVersion.kIPv4 else PacketInfo.IPVersion.kIPv6
      proto := PacketInfo.IPProto.kUDP, ts := w.ts
      srcAddr := src, srcPort := w.srcPort.toNat
      dstAddr := dst, dstPort := w.dstPort.toNat }⟩
  | _, _ => none

theorem Savefile.readRecords_record (fuel : ℕ) {x : Timeval × Bytes} (hx : Storable x)
    (rest : Bytes) :
    readRecords (fuel + 1) (OStream.record x ++ rest) =
      .packet x.2 x.1 :: readRecords fuel rest := by
  obtain ⟨hsec, husec, hlen⟩ := hx
  have hbytes : OStream.record x ++ rest =
      le 4 x.1.sec ++
        (le 4 x.1.usec ++ (le 4 x.2.length ++ (le 4 x.2.length ++ (x.2 ++ rest)))) := by
    simp [OStream.record, OStream.recordHeader]
  have hread : ∀ {a b c : Bytes} {off n : ℕ}, OStream.record x ++ rest = a ++ (b ++ c) →
      a.length = off → b = le 4 n → n < 2 ^ 32 →
      readLE (slice (OStream.record x ++ rest) off 4) = n := by
    intro a b c off n h ha hb hn
    rw [slice_field h ha (by simp [hb]), hb, readLE_le_of_lt (by omega)]
  have h0 : readLE (slice (OStream.record x ++ rest) 0 4) = x.1.sec :=
    hread (a := []) hbytes rfl rfl hsec
  have h4 : readLE (slice (OStream.record x ++ rest) 4 4) = x.1.usec :=
    hread (a := le 4 x.1.sec) hbytes (by simp) rfl (by omega)
  have h8 : readLE (slice (OStream.record x ++ rest) 8 4) = x.2.length :=
    hread (a := le 4 x.1.sec ++ le 4 x.1.usec) (c := le 4 x.2.length ++ (x.2 ++ rest))
      (by simp [hbytes]) (by simp) rfl (by omega)
  have hheader : (OStream.record x).length = 16 + x.2.length := by simp [OStream.record]
  have hdata : slice (OStream.record x ++ rest) 16 x.2.length = x.2 :=
    slice_field (a := OStream.recordHeader x.1 x.2.length) (c := rest)
      (by simp [OStream.record]) (by simp) rfl
  have hdrop : (OStream.record x ++ rest).drop (16 + x.2.length) = rest := by
    rw [← hheader, List.drop_left]
  have hne : OStream.record x ++ rest ≠ [] := by
    intro hnil
    have hlength := congrArg List.length hnil
    rw [List.length_append, hheader] at hlength
    simp at hlength
  have hfits : ¬(OStream.record x ++ rest).length < 16 + x.2.length := by
    rw [List.length_append, hheader]
    omega
  rw [readRecords, h8, if_neg hne, if_neg hfits, hdata, h0, h4, hdrop]

theorem Savefile.readRecords_records {records : List (Timeval × Bytes)}
    (h : ∀ x ∈ records, Storable x) {fuel : ℕ} (hfuel : records.length < fuel) :
    readRecords fuel (records.flatMap OStream.record) =
      records.map (fun x => .packet x.2 x.1) ++ [.eof ⟨0, 0⟩] := by
  induction records generalizing fuel with
  | nil =>
    cases fuel with
    | zero => simp at hfuel
    | succ fuel => rfl
  | cons x records ih =>
    cases fuel with
    | zero => simp at hfuel
    | succ fuel =>
      have hlater := ih (fun y hy => h y (by simp [hy])) (Nat.lt_of_succ_lt_succ hfuel)
      rw [List.flatMap_cons, readRecords_record fuel (h x (by simp)), hlater]
      rfl

theorem Savefile.plain_reads : plain.Reads where
  datalink datalink records _ _ := by
    have hfield : slice (OStream.fileHeader datalink ++ records.flatMap OStream.record) 20 4 =
        le 4 datalink.toNat := by
      refine slice_field (a := le 4 0xa1b2c3d4 ++ le 2 2 ++ le 2 4 ++ le 4 0 ++ le 4 0 ++
        le 4 0xFFFF) (c := records.flatMap OStream.record) ?_ (by simp) (by simp)
      simp [OStream.fileHeader]
    have hlong : ¬(OStream.fileHeader datalink ++ records.flatMap OStream.record).length < 24 := by
      simp
    have hlt : datalink.toNat < 256 ^ 4 := datalink.toNat_lt
    have hvalue : BitVec.ofNat 32 datalink.toNat = datalink.toBitVec := by simp
    dsimp only [plain]
    rw [if_neg hlong, hfield, readLE_le_of_lt hlt, hvalue]
  next datalink records _ h := by
    refine ⟨⟨0, 0⟩, ?_⟩
    have hrecords : records.length ≤ (records.flatMap OStream.record).length := by
      rw [List.length_flatMap]
      refine (List.length_le_sum_of_one_le (records.map fun x => (OStream.record x).length)
        ?_).trans' (by simp)
      intro n hn
      obtain ⟨x, -, rfl⟩ := List.mem_map.mp hn
      simp [OStream.record]
      omega
    have hdrop : (OStream.fileHeader datalink ++ records.flatMap OStream.record).drop 24 =
        records.flatMap OStream.record := by
      rw [← OStream.length_fileHeader datalink, List.drop_left]
    dsimp only [plain]
    rw [hdrop]
    refine readRecords_records h ?_
    rw [List.length_append, OStream.length_fileHeader]
    omega

theorem IParser.all_ofPayload (payload : Payload) (xs : List (Bytes × Timeval)) :
    ((IParser.ofPayload payload).all () xs).2 =
      xs.flatMap ((IParser.ofPayload payload).frame ()) := by
  induction xs with
  | nil => rfl
  | cons x xs ih =>
    rw [List.flatMap_cons, ← ih]
    rfl

theorem IParser.frame_ofPayload {payload : Payload} {data : Bytes} {ts : Timeval}
    {packets : List Packet} (h : Raw.packets payload data ts = .ok packets) :
    (IParser.ofPayload payload).frame () (data, ts) = packets := by
  simp [IParser.frame, IParser.ofPayload, h]

/-- No parser of the library without a state throws or looks outside of a frame. -/
theorem IParser.stays_ofPayload (p : Parser) (datalink : ℤ) (xs : List (Bytes × Timeval)) :
    (IParser.ofPayload (p.payload datalink)).stays () xs = true := by
  induction xs with
  | nil => rfl
  | cons x xs ih =>
    have hpackets : ∃ packets, Raw.packets (p.payload datalink) x.1 x.2 = .ok packets := by
      rcases (p.payload_gives datalink).sound.packets x.1 x.2 with h | ⟨packet, h, -⟩
      · exact ⟨_, h⟩
      · exact ⟨_, h⟩
    obtain ⟨packets, hpackets⟩ := hpackets
    have hframe : (IParser.ofPayload (p.payload datalink)).packets () x.1 x.2 =
        ((), .ok packets) := congrArg (Prod.mk ()) hpackets
    rw [IParser.stays, hframe]
    exact ih

theorem Sniffer.frames_packets (records : List (Timeval × Bytes)) (next : List NextEx) :
    Sniffer.frames (records.map (fun x => .packet x.2 x.1) ++ next) =
      records.map (fun x => (x.2, x.1)) ++ Sniffer.frames next := by
  induction records with
  | nil => rfl
  | cons x records ih => simp [Sniffer.frames, ih]

theorem UDP.packets_empty {datalink : ℤ} {dataSize : ℕ} (h : Headers datalink dataSize)
    (ts : Timeval) :
    Raw.packets (UDP.payload datalink) h.bytes ts = .ok [] := by
  have hassoc : h.bytes = h.link ++ (h.ip.bytes ++ h.udp.bytes) := by simp [Headers.bytes]
  have hudp : h.udp.bytes ≠ [] := by
    intro hnil
    have hlen := h.udp.length_bytes
    simp [hnil] at hlen
  have hshort : ¬h.link.length + h.ip.bytes.length + 8 < h.bytes.length := by
    rw [hassoc]
    simp only [List.length_append, UDPHdr.length_bytes]
    omega
  have hpayload : ∃ info, UDP.payload datalink h.bytes { ts := ts } =
      .ok (h.bytes.length, info) := by
    unfold UDP.payload
    rw [hassoc, IP.payload_read h.headerSize_eq h.carriesUDP hudp, ← hassoc]
    simp only [ok_bind, pure_ok]
    rw [if_neg hshort]
    exact ⟨_, rfl⟩
  obtain ⟨info, hpayload⟩ := hpayload
  unfold Raw.packets
  rw [hpayload]
  simp only [ok_bind, pure_ok]
  rw [if_neg (Nat.lt_irrefl _)]

/-- A frame that has been written is read back by the UDP parser. -/
theorem packets_frame (pton : Pton) {datalink : UInt32}
    (hdatalink : datalink.toBitVec.toInt ∈ IPPacket.datalinks) (call : ℕ × WriteArgs) :
    ((OStream.frame pton datalink call).toList.map fun x => (x.2, x.1)).flatMap
      ((IParser.ofPayload (UDP.payload datalink.toBitVec.toInt)).frame ()) =
      (replayed pton call.2).toList := by
  by_cases hparsable : OStream.Parsable pton call.2
  · obtain ⟨src, hsrc⟩ := Option.isSome_iff_exists.mp hparsable.1
    obtain ⟨dst, hdst⟩ := Option.isSome_iff_exists.mp hparsable.2
    obtain ⟨h, hcreate, hinfo⟩ := IPPacket.create_ok (a := OStream.packetArgs datalink call.2)
      call.1 hdatalink hsrc hdst
    have hframe : OStream.frame pton datalink call =
        some (call.2.ts, h.bytes ++ call.2.data) := by
      unfold OStream.frame
      rw [hcreate]
      rfl
    rw [hframe]
    have hlist : ∀ x : Timeval × Bytes,
        ((some x).toList.map fun x => (x.2, x.1)).flatMap
          ((IParser.ofPayload (UDP.payload datalink.toBitVec.toInt)).frame ()) =
        (IParser.ofPayload (UDP.payload datalink.toBitVec.toInt)).frame () (x.2, x.1) := by
      intro x
      simp
    rw [hlist]
    dsimp only
    by_cases hdata : call.2.data = []
    · have hread : Raw.packets (UDP.payload datalink.toBitVec.toInt) h.bytes call.2.ts = .ok [] :=
        UDP.packets_empty h call.2.ts
      rw [hdata, List.append_nil, IParser.frame_ofPayload hread]
      simp [replayed, hsrc, hdst, hdata]
    · have hread : Raw.packets (UDP.payload datalink.toBitVec.toInt) (h.bytes ++ call.2.data)
          call.2.ts = .ok [⟨call.2.data, h.info { ts := call.2.ts }⟩] :=
        Raw.packets_read hdata (UDP.payload_read h hdata _)
      rw [IParser.frame_ofPayload hread, hinfo]
      simp only [replayed, hsrc, hdst, hdata, if_false, Option.toList_some]
      rfl
  · obtain ⟨what, hcreate⟩ := OStream.create_throws pton call.1 hdatalink hparsable
    have hframe : OStream.frame pton datalink call = none := by
      unfold OStream.frame
      rw [hcreate]
    have hnone : replayed pton call.2 = none := by
      unfold replayed
      cases hsrc : IPPacket.textForm pton call.2.af call.2.srcAddr with
      | none => rfl
      | some src =>
        cases hdst : IPPacket.textForm pton call.2.af call.2.dstAddr with
        | none => rfl
        | some dst => exact absurd ⟨by simp [hsrc], by simp [hdst]⟩ hparsable
    rw [hframe, hnone]
    rfl

theorem OStream.frame_time {pton : Pton} {datalink : UInt32} {call : ℕ × WriteArgs}
    {x : Timeval × Bytes} (h : OStream.frame pton datalink call = some x) : x.1 = call.2.ts := by
  unfold OStream.frame at h
  cases hcreate : IPPacket.create pton call.1 (OStream.packetArgs datalink call.2) with
  | error e => simp [hcreate] at h
  | ok packet =>
    simp only [hcreate, Option.some.injEq] at h
    rw [← h]

/-- The records of calls whose data fit a packet and whose times fit the record header. -/
theorem OStream.storable_frames (pton : Pton) {datalink : UInt32}
    (hdatalink : datalink.toBitVec.toInt ∈ IPPacket.datalinks) {calls : List (ℕ × WriteArgs)}
    (hcalls : ∀ call ∈ calls, call.2.ts.sec < 2 ^ 32 ∧ call.2.ts.usec < 1000000 ∧
      call.2.data.length ≤ 0xFFFF - 62) :
    ∀ x ∈ calls.filterMap (OStream.frame pton datalink), Storable x := by
  intro x hx
  obtain ⟨call, hcall, hframe⟩ := List.mem_filterMap.mp hx
  obtain ⟨hsec, husec, hdata⟩ := hcalls call hcall
  have hlen := OStream.length_frame_le pton hdatalink hframe
  rw [← OStream.frame_time hframe] at hsec husec
  exact ⟨hsec, husec, by omega⟩

/-- The packets of a file are the data of the calls that have written it. -/
theorem packets_file (pton : Pton) {datalink : UInt32}
    (hdatalink : datalink.toBitVec.toInt ∈ IPPacket.datalinks) (calls : List (ℕ × WriteArgs)) :
    ((IParser.ofPayload (UDP.payload datalink.toBitVec.toInt)).all ()
      ((calls.filterMap (OStream.frame pton datalink)).map fun x => (x.2, x.1))).2 =
      calls.filterMap fun call => replayed pton call.2 := by
  rw [IParser.all_ofPayload]
  induction calls with
  | nil => rfl
  | cons call calls ih =>
    have hfirst := packets_frame pton hdatalink call
    rw [List.filterMap_cons, List.filterMap_cons]
    cases hframe : OStream.frame pton datalink call with
    | none =>
      rw [hframe] at hfirst
      have hnone : replayed pton call.2 = none := by
        simpa using hfirst.symm
      simp only [hnone]
      exact ih
    | some x =>
      rw [hframe] at hfirst
      simp only [List.map_cons, List.flatMap_cons, ih]
      cases hreplayed : replayed pton call.2 with
      | none =>
        rw [hreplayed] at hfirst
        simpa using hfirst
      | some p =>
        rw [hreplayed] at hfirst
        have hpacket : (IParser.ofPayload (UDP.payload datalink.toBitVec.toInt)).frame ()
            (x.2, x.1) = [p] := by simpa using hfirst
        rw [hpacket]
        rfl

namespace Sniffer

variable {τ : Type} {parser : IParser τ} {debug : Bool}

theorem offline_reads {t : τ} {s : Sniffer τ} {es es' : List Event} {out : List Output}
    (hrun : (machine parser debug).run (fresh true t) (es ++ es') = .ok (s, out)) {now : Timeval}
    {next : List NextEx} (hread : .ready none now next ∈ es') :
    es'.flatMap read = frames next := by
  have h := run_progress hrun
  have hfirst : ¬Continues true (.ready none now next) := by simp [Continues]
  have hover : ¬s.Reads := by
    intro hreads
    exact hfirst (h.reading hreads _ (List.mem_append_right es hread))
  obtain ⟨before, e, after, heq, hbefore, -, -, hafter⟩ := h.ended hover
  have hearlier : ∀ x ∈ before, read x = [] := by
    intro x hx
    have hcontinues := hbefore x hx
    cases x with
    | ready error now next => cases error <;> simp [Continues] at hcontinues
    | _ => rfl
  have hlater : ∀ x ∈ after, read x = [] :=
    fun x hx => (Event.reads_nothing (.inr (hafter x hx)) true).1
  have hnothing : ∀ {xs : List Event}, (∀ x ∈ xs, read x = []) → xs.flatMap read = [] :=
    fun hxs => List.flatMap_eq_nil_iff.mpr hxs
  -- the event is the one that ends the reading
  rcases List.append_eq_append_iff.mp heq with ⟨middle, rfl, rfl⟩ | ⟨middle, rfl, hlast⟩
  · obtain rfl : .ready none now next = e := by
      rcases List.mem_append.mp hread with hread | hread
      · exact absurd (hbefore _ (List.mem_append_right es hread)) hfirst
      · exact (List.mem_cons.mp hread).resolve_right fun hread => hafter _ hread
    have hmiddle : ∀ x ∈ middle, read x = [] :=
      fun x hx => hearlier x (List.mem_append_right es hx)
    rw [List.flatMap_append, List.flatMap_cons, hnothing hmiddle, hnothing hlater]
    simp [read]
  · cases middle with
    | nil =>
      obtain rfl : e :: after = es' := hlast
      obtain rfl := (List.mem_cons.mp hread).resolve_right fun hread => hafter _ hread
      rw [List.flatMap_cons, hnothing hlater]
      simp [read]
    | cons x middle =>
      -- the event would come behind the first one
      obtain ⟨rfl, rfl⟩ : e = x ∧ after = middle ++ es' := by simpa using hlast
      exact (hafter _ (List.mem_append_right middle hread)).elim

end Sniffer
end NetComponents.Pcap

namespace NetComponents.Livecapture

open Library Sockets

namespace Capture

/-- What the sniffer does. -/
def sniffs (events : List Event) : List Pcap.Sniffer.Event :=
  events.filterMap fun
    | .sniffer e => some e
    | _ => none

theorem sniffs_append (events events' : List Event) :
    sniffs (events ++ events') = sniffs events ++ sniffs events' := List.filterMap_append

theorem mem_sniffs {events : List Event} {e : Pcap.Sniffer.Event} (h : .sniffer e ∈ events) :
    e ∈ sniffs events := List.mem_filterMap.mpr ⟨_, h, rfl⟩

theorem flatMap_readOf (events : List Event) :
    events.flatMap readOf = (sniffs events).flatMap Pcap.Sniffer.read := by
  induction events with
  | nil => rfl
  | cons e events ih =>
    cases e with
    | sniffer e => simp [sniffs, readOf, ih]
    | connect protocol filter termination => simpa [sniffs, readOf] using ih
    | client k e => simpa [sniffs, readOf] using ih

variable {τ : Type} {toISOString : Pcap.Timeval → String} {port : ℕ} {parser : Pcap.IParser τ}
  {debug : Bool}

theorem run_sniffer {s s' : Capture τ} {events : List Event} {out : List Output}
    (hrun : (machine toISOString port parser debug).run s events = .ok (s', out)) :
    (Pcap.Sniffer.machine parser debug).run s.sniffer (sniffs events) =
      .ok (s'.sniffer, sniffed out) := by
  induction events generalizing s out with
  | nil =>
    cases hrun
    rfl
  | cons e events ih =>
    obtain ⟨u, o, o', hstep, hrest, rfl⟩ :=
      (machine toISOString port parser debug).run_cons_ok_iff.mp hrun
    have hstep : step toISOString port parser debug s e = .ok (u, o) := hstep
    rw [sniffed_append]
    cases e with
    | sniffer e =>
      obtain ⟨o₁, hsniffer, -, rfl⟩ := step_sniffer hstep
      rw [(announce_spec toISOString port s.clients o₁).2.2]
      exact (Pcap.Sniffer.machine parser debug).run_cons hsniffer (ih hrest)
    | connect protocol filter termination =>
      obtain ⟨rfl, rfl⟩ := step_connect hstep
      have hlater := ih hrest
      exact hlater
    | client k e =>
      obtain ⟨-, c, c', o₁, -, -, rfl, rfl⟩ := step_client hstep
      rw [sniffed_client, List.nil_append]
      have hlater := ih hrest
      exact hlater

/-- Record and replay. Calls of `OStream::write` whose data fit a packet and whose times fit the
record header have made a file on a stream that does not fail, and a sniffer without a filter
replays it with the parser for UDP. A client that is alive, and is not disturbed by another one, has
been written, or is still to be, what its own filter lets pass of the data of these calls: of each
one whose addresses can be parsed and that has data, with its time, its addresses in the form of
`inet_ntop` and its ports, each once, and in order if the handlers of the client run first in, first
out. -/
theorem replay_reaches_client (pton : Pcap.Pton) {lib : Pcap.Savefile} (hlib : lib.Reads)
    {datalink : UInt32} (hdatalink : datalink.toBitVec.toInt ∈ Pcap.IPPacket.datalinks)
    {calls : List (ℕ × Pcap.WriteArgs)}
    (hcalls : ∀ call ∈ calls, call.2.ts.sec < 2 ^ 32 ∧ call.2.ts.usec < 1000000 ∧
      call.2.data.length ≤ 0xFFFF - 62)
    {file : Pcap.OStream} {results : List (Exec Unit)} {created : Pcap.OStream}
    (hcreate : Pcap.OStream.create (.reliable []) datalink = .ok created)
    (hwrite : (Pcap.OStream.machine pton).run created calls = .ok (file, results))
    {linktype : ℤ} (hopen : lib.datalink file.out.bytes = some linktype)
    {s s' : Capture Unit} {before after : List Event} {k : ℕ} {o o' : List Output}
    (hbefore : (machine toISOString port (.ofPayload (Pcap.Parser.udp.payload linktype)) debug).run
      (fresh true ()) (before ++ [.client k .constructed]) = .ok (s, o))
    (hafter : (machine toISOString port (.ofPayload (Pcap.Parser.udp.payload linktype)) debug).run
      s after = .ok (s', o'))
    {now : Pcap.Timeval} (hread : .sniffer (.ready none now (lib.next file.out.bytes "")) ∈ after)
    {c : Client} (hc : s'.clients[k]? = some c) (halive : c.Alive)
    (hundisturbed : Undisturbed toISOString port
      (.ofPayload (Pcap.Parser.udp.payload linktype)) debug s after k) :
    ∃ protocol filter termination,
      (connections (before ++ [.client k .constructed] ++ after))[k]? =
        some (protocol, filter, termination) ∧
      (let expected := Client.rendered toISOString port filter
          (calls.filterMap fun call => Pcap.replayed pton call.2)
        let waiting := Client.rendered toISOString port filter c.posted
        let written := Client.wroteOf (seen k (o ++ o'))
        (written ++ waiting).Perm expected ∧
        ((∀ i, .client k (.run i) ∈ before ++ [.client k .constructed] ++ after → i = 0) →
          written ++ waiting = expected)) := by
  -- the file
  obtain rfl := Except.ok.inj (hcreate.symm.trans (Pcap.OStream.create_reliable hdatalink))
  have hstorable := Pcap.OStream.storable_frames pton hdatalink hcalls
  have hsize : ∀ call ∈ calls, ∀ x, Pcap.OStream.frame pton datalink call = some x →
      x.2.length < 2 ^ 32 := by
    intro call hcall x hx
    have hlen := (hstorable x (List.mem_filterMap.mpr ⟨call, hcall, hx⟩)).2.2
    omega
  obtain ⟨results', hrun', -⟩ := Pcap.OStream.run_writes pton hdatalink calls
    (Pcap.OStream.fileHeader datalink) hsize
  obtain ⟨rfl, -⟩ := Prod.mk.inj (Except.ok.inj (hwrite.symm.trans hrun'))
  obtain rfl := Option.some.inj (hopen.symm.trans (hlib.datalink datalink _ hdatalink hstorable))
  obtain ⟨ts, hnext⟩ := hlib.next datalink _ hdatalink hstorable
  have hread : .sniffer (.ready none now (lib.next (Pcap.OStream.fileHeader datalink ++
      (calls.filterMap (Pcap.OStream.frame pton datalink)).flatMap Pcap.OStream.record) "")) ∈
    after := hread
  -- the frames that the sniffer reads
  have hrun := (machine toISOString port _ debug).run_append hbefore hafter
  have hframes : after.flatMap readOf = (calls.filterMap (Pcap.OStream.frame pton datalink)).map
      fun x => (x.2, x.1) := by
    have hsniffer := run_sniffer hrun
    rw [sniffs_append] at hsniffer
    rw [flatMap_readOf, Pcap.Sniffer.offline_reads hsniffer (mem_sniffs hread), hnext,
      Pcap.Sniffer.frames_packets]
    simp [Pcap.Sniffer.frames]
  obtain ⟨protocol, filter, termination, es, hconnection, hclient, hes⟩ :=
    (run_projects hrun).runs k c hc
  have hledger := Client.run_ledger hclient
  have hposted := (alive_posted hbefore hafter hc halive).2.mpr hundisturbed
  have hpackets := Pcap.packets_file pton hdatalink calls
  rw [hframes] at hposted
  have hposted := hposted.trans hpackets
  refine ⟨protocol, filter, termination, hconnection, ?_, ?_⟩
  · rw [← hposted]
    exact hledger.perm
  · intro hfifo
    rw [← hposted]
    refine hledger.fifo fun i hi => ?_
    rcases hes _ hi with ⟨p, hp⟩ | hi
    · cases hp
    · exact hfifo i hi

/-- A file with one record, and a client for everything. -/
theorem replay_reaches_client_one :
    let pton : Pcap.Pton := ⟨fun s => if s = "10.0.0.1" then some #v[10, 0, 0, 1] else none,
      fun _ => none⟩
    let call : ℕ × Pcap.WriteArgs :=
      (0, ⟨⟨1, 2⟩, Pcap.AF_INET, 17, "10.0.0.1", 1000, "10.0.0.1", 2000, [7]⟩)
    ∃ p e s o, Pcap.replayed pton call.2 = some p ∧
      (machine (fun _ => "") 0 (.ofPayload (Pcap.Parser.udp.payload 12)) false).run (fresh true ())
        ([.connect .tcp [42] true, .client 0 .constructed] ++ [.sniffer .complete, .sniffer e]) =
          .ok (s, o) ∧
      ∃ c, s.clients[0]? = some c ∧
        Client.wroteOf (seen 0 o) ++ Client.rendered (fun _ => "") 0 [42] c.posted =
          Client.rendered (fun _ => "") 0 [42] [p] := by
  intro pton call
  have hdatalink : (12 : UInt32).toBitVec.toInt ∈ Pcap.IPPacket.datalinks := by decide
  have hlink : (12 : UInt32).toBitVec.toInt = 12 := by decide
  have hcalls : ∀ x ∈ [call], x.2.ts.sec < 2 ^ 32 ∧ x.2.ts.usec < 1000000 ∧
      x.2.data.length ≤ 0xFFFF - 62 := by
    intro x hx
    rw [List.mem_singleton.mp hx]
    decide
  have hstorable := Pcap.OStream.storable_frames pton hdatalink hcalls
  obtain ⟨results, hwrite, -⟩ := Pcap.OStream.run_writes pton hdatalink [call]
    (Pcap.OStream.fileHeader 12) (by
      intro x hx y hy
      have hlen := (hstorable y (List.mem_filterMap.mpr ⟨x, hx, hy⟩)).2.2
      omega)
  generalize hnext : Pcap.Savefile.plain.next (Pcap.OStream.fileHeader 12 ++
    ([call].filterMap (Pcap.OStream.frame pton 12)).flatMap Pcap.OStream.record) "" = next
  obtain ⟨ts, hresults⟩ := Pcap.Savefile.plain_reads.next 12 _ hdatalink hstorable
  have hpackets : ((Pcap.IParser.ofPayload (Pcap.Parser.udp.payload 12)).all ()
      (Pcap.Sniffer.frames next)).2 = [call].filterMap fun call => Pcap.replayed pton call.2 := by
    have hfile := Pcap.packets_file pton hdatalink [call]
    have hend : Pcap.Sniffer.frames [.eof ts] = [] := rfl
    rw [← hnext, hresults, Pcap.Sniffer.frames_packets, hend, List.append_nil]
    rw [hlink] at hfile
    exact hfile
  obtain ⟨p, hp⟩ : ∃ p, Pcap.replayed pton call.2 = some p := ⟨_, rfl⟩
  have hparsed : ((Pcap.IParser.ofPayload (Pcap.Parser.udp.payload 12)).all ()
      (Pcap.Sniffer.frames next)).2 = [p] := by
    refine hpackets.trans ?_
    simp [hp]
  have hbefore : (machine (fun _ => "") 0 (.ofPayload (Pcap.Parser.udp.payload 12)) false).run
      (fresh true ()) ([.connect .tcp [42] true] ++ [.client 0 .constructed]) =
      .ok (⟨.fresh true (), [lone []]⟩, []) := run_lone true ()
  obtain ⟨sniffer, errors, hafter⟩ : ∃ sniffer, ∃ errors : List Pcap.CaptureError,
      (machine (fun _ => "") 0 (.ofPayload (Pcap.Parser.udp.payload 12)) false).run
        ⟨.fresh true (), [lone []]⟩ [.sniffer .complete, .sniffer (.ready none ⟨0, 0⟩ next)] =
      .ok (⟨sniffer, [lone [p]]⟩, .sniffer (.notified p) :: .client 0 (.posted p) ::
        errors.map fun e => .sniffer (.failed e)) :=
    run_lone_ready (Pcap.IParser.stays_ofPayload .udp 12 _) hparsed
  have hopen : Pcap.Savefile.plain.datalink (Pcap.OStream.fileHeader 12 ++
      ([call].filterMap (Pcap.OStream.frame pton 12)).flatMap Pcap.OStream.record) = some 12 := by
    rw [Pcap.Savefile.plain_reads.datalink 12 _ hdatalink hstorable, hlink]
  obtain ⟨protocol, filter, termination, hconnection, -, hfifo⟩ :=
    replay_reaches_client pton Pcap.Savefile.plain_reads hdatalink hcalls
      (Pcap.OStream.create_reliable hdatalink) hwrite hopen hbefore hafter
      (by
        rw [← hnext]
        exact List.mem_cons_of_mem _ (List.mem_singleton_self _))
      rfl (.inl rfl) (undisturbed_zero _ _)
  obtain ⟨rfl, rfl, rfl⟩ : Protocol.tcp = protocol ∧ [42] = filter ∧ true = termination := by
    simpa [connections] using hconnection
  refine ⟨p, _, _, _, hp, (machine _ _ _ _).run_append hbefore hafter, _, rfl, ?_⟩
  have hwritten := hfifo (by simp)
  simp only [List.filterMap_cons, hp] at hwritten
  exact hwritten

end Capture
end NetComponents.Livecapture
