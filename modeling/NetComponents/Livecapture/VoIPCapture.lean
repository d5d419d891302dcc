import NetComponents.Livecapture.Delivery
import NetComponents.Pcap.Flows

/-!
# A capture of voipmonitor's blocks

A sniffer with the parser `voip` reads frames of TCP connections that carry blocks. The frames go
through the reassembly library, the reassembler of their flow, the signal of the sniffer, and the
filter of each client. What the library does with a frame is a parameter.
-/

namespace NetComponents.Pcap

open Library

/-- `pcpp::TcpReassembly`: the callbacks that `reassemblePacket` makes for a frame -/
structure Reassembly (ρ : Type) where
  reassemblePacket : ρ → Bytes → Timeval → ρ × List TcpStreamData

/-- `VoIP::packets` as the parser of a sniffer. -/
def IParser.voip {ρ : Type} (snappy : Snappy) (lib : Reassembly ρ) : IParser (ρ × VoIP) where
  packets t data ts :=
    let (r, callbacks) := lib.reassemblePacket t.1 data ts
    match t.2.packets snappy ⟨callbacks, ts⟩ with
    | .ok (v, packets) => ((r, v), .ok packets)
    | .error e => ((r, t.2), .error e)

section Frames

variable {ρ : Type} (lib : Reassembly ρ) {κ : Type} (flow : κ → Flow)

/-- The library makes of these frames these segments of the flows: of each frame one, or none, such
as of a frame that only acknowledges. -/
inductive Presents : ρ → List (Bytes × Timeval) → List (κ × Bytes × Timeval) → Prop where
  | nil (r : ρ) : Presents r [] []
  | silent {r r' : ρ} {data : Bytes} {ts : Timeval} {frames : List (Bytes × Timeval)}
      {segments : List (κ × Bytes × Timeval)} (hframe : lib.reassemblePacket r data ts = (r', []))
      (hrest : Presents r' frames segments) : Presents r ((data, ts) :: frames) segments
  | segment {r r' : ρ} {data : Bytes} {ts : Timeval} {k : κ} {segment : Bytes}
      {frames : List (Bytes × Timeval)} {segments : List (κ × Bytes × Timeval)}
      (hframe : lib.reassemblePacket r data ts =
        (r', [⟨some segment, (flow k).connectionData⟩]))
      (hrest : Presents r' frames segments) :
      Presents r ((data, ts) :: frames) ((k, segment, ts) :: segments)

variable {lib flow} {snappy : Snappy} {v : VoIP}

theorem VoIP.packets_silent (hbase : v.base.data = none) (ts : Timeval) :
    v.packets snappy ⟨[], ts⟩ = .ok (v, []) := by
  simp [VoIP.packets, TCPReassembler.packets, hbase, VoIP.processAll]

theorem VoIP.packets_base {v' : VoIP} {f : Flow} {segment : Bytes} {ts : Timeval}
    {packets : List Packet} (h : v.packets snappy (f.call segment ts) = .ok (v', packets)) :
    v'.base.data = none := by
  obtain ⟨p, hpackets, -, -⟩ := f.packets_call segment ts v.base
  unfold VoIP.packets at h
  rw [hpackets] at h
  obtain ⟨⟨reasms, result⟩, -, hresult⟩ := bind_ok_iff.mp h
  cases hresult
  rfl

variable [DecidableEq κ]

/-- The frames of all flows give what the reassemblers of the flows give, in the order in which the
segments came. -/
theorem all_voip (hkeys : Function.Injective fun k => (flow k).key) {r : ρ}
    {frames : List (Bytes × Timeval)} {segments : List (κ × Bytes × Timeval)}
    (h : Presents lib flow r frames segments) (hbase : v.base.data = none)
    {rs rs' : κ → Reassembler} (hv : Represents flow v rs) {out : List (κ × Packet)}
    (hrun : (Reassembler.timed snappy).family.run rs segments = .ok (rs', out)) :
    (IParser.voip snappy lib).stays (r, v) frames = true ∧
      ((IParser.voip snappy lib).all (r, v) frames).2 = out.map Prod.snd := by
  induction h generalizing v rs out with
  | nil r =>
    cases hrun
    exact ⟨rfl, rfl⟩
  | @silent r r' data ts frames segments hframe _ ih =>
    have hpackets : (IParser.voip snappy lib).packets (r, v) data ts = ((r', v), .ok []) := by
      simp [IParser.voip, hframe, VoIP.packets_silent hbase]
    simp only [IParser.stays, IParser.all, IParser.frame, hpackets, List.nil_append]
    exact ih hbase hv hrun
  | @segment r r' data ts k segment frames segments hframe _ ih =>
    obtain ⟨rs₁, o, o', hstep, hrest, rfl⟩ :=
      (Reassembler.timed snappy).family.run_cons_ok_iff.mp hrun
    obtain ⟨v', hpresented, hv'⟩ := presented_simulates snappy hkeys hv hstep
    cases hcall : v.packets snappy ((flow k).call segment ts) with
    | error e => simp [VoIP.presented, hcall, Except.map] at hpresented
    | ok result =>
      obtain ⟨v₁, ps⟩ := result
      obtain ⟨rfl, rfl⟩ : v₁ = v' ∧ ps.map (Prod.mk k) = o := by
        simpa [VoIP.presented, hcall, Except.map] using hpresented
      have hpackets : (IParser.voip snappy lib).packets (r, v) data ts = ((r', v₁), .ok ps) := by
        have hcall : v.packets snappy ⟨[⟨some segment, (flow k).connectionData⟩], ts⟩ =
            .ok (v₁, ps) := hcall
        simp [IParser.voip, hframe, hcall]
      obtain ⟨hstays, hall⟩ := ih (VoIP.packets_base hcall) hv' hrest
      simp only [IParser.stays, IParser.all, IParser.frame, hpackets]
      refine ⟨hstays, ?_⟩
      rw [hall]
      simp [Function.comp_def]

/-- The frames give the packets of the blocks of each flow, once and in order. -/
theorem all_voip_blocks (hdistinct : Function.Injective fun k => (flow k).endpoints)
    (blocks : κ → List (Block snappy)) (cuts : κ → List (List Bytes))
    (hcuts : ∀ k, List.Forall₂ (fun b => IsCut 64 b.bytes) (blocks k) (cuts k)) {r : ρ}
    {frames : List (Bytes × Timeval)} {segments : List (κ × Bytes × Timeval)}
    (h : Presents lib flow r frames segments)
    (hsegments : ∀ k, (Machine.project k segments).map Prod.fst = (cuts k).flatten) :
    ∃ packets : List (κ × Packet),
      (IParser.voip snappy lib).stays (r, VoIP.fresh) frames = true ∧
      ((IParser.voip snappy lib).all (r, VoIP.fresh) frames).2 = packets.map Prod.snd ∧
      ∀ k, Machine.project k packets = (blocks k).flatMap Block.packets := by
  have hsingle : ∀ k, ∃ t, (Reassembler.timed snappy).run Reassembler.fresh
      (Machine.project k segments) = .ok (t, (blocks k).flatMap Block.packets) := by
    intro k
    obtain ⟨t, hrun⟩ := Reassembler.run_fresh_cuts (hcuts k)
    rw [← hsegments k] at hrun
    exact ⟨t, Reassembler.run_timed hrun⟩
  obtain ⟨rs, out, hrun, hproject⟩ := (Reassembler.timed snappy).family_run
    (S := fun _ => Reassembler.fresh) segments fun k => ⟨_, _, (hsingle k).choose_spec⟩
  have hfresh : Represents flow VoIP.fresh fun _ => Reassembler.fresh := fun k => rfl
  obtain ⟨hstays, hall⟩ :=
    all_voip (fun j k h => hdistinct (Flow.endpoints_eq_of_key h)) h rfl hfresh hrun
  refine ⟨out, hstays, hall, fun k => ?_⟩
  obtain ⟨t, ht⟩ := hsingle k
  exact (Prod.mk.inj (Except.ok.inj ((hproject k).symm.trans ht))).2

end Frames
end NetComponents.Pcap

namespace NetComponents.Livecapture

open Library Sockets

namespace Capture

variable {ρ : Type} {toISOString : Pcap.Timeval → String} {port : ℕ} {debug : Bool}

/-- From the frames to the clients. Blocks of voipmonitor are sent over any number of TCP flows.
Each block is cut by itself, with at least 64 bytes in its first segment; the segments come in any
order among the flows, and a frame completes one of them at most. A client that has been there since
before the first frame, is alive and is not disturbed by another one has been written, or is still
to be, the messages of the packets in these blocks, as far as its filter lets them pass: each once,
those of a flow in the order of its blocks, if the handlers of the client run first in, first out.
-/
theorem blocks_reach_client {snappy : Pcap.Snappy} {lib : Pcap.Reassembly ρ} {κ : Type}
    [DecidableEq κ] {flow : κ → Pcap.Flow}
    (hdistinct : Function.Injective fun k => (flow k).endpoints)
    (blocks : κ → List (Pcap.Block snappy)) (cuts : κ → List (List Bytes))
    (hcuts : ∀ f, List.Forall₂ (fun b => Pcap.IsCut 64 b.bytes) (blocks f) (cuts f))
    {offline : Bool} {r r' : ρ} {s s' : Capture (ρ × Pcap.VoIP)} {before after : List Event} {k : ℕ}
    {o o' : List Output}
    (hbefore : (machine toISOString port (.voip snappy lib) debug).run
      (fresh offline (r, .fresh)) (before ++ [.client k .constructed]) = .ok (s, o))
    (hfirst : s.sniffer.parser = (r', .fresh))
    (hafter : (machine toISOString port (.voip snappy lib) debug).run s after = .ok (s', o'))
    {segments : List (κ × Bytes × Pcap.Timeval)}
    (hpresents : Pcap.Presents lib flow r' (after.flatMap readOf) segments)
    (hsegments : ∀ f, (Machine.project f segments).map Prod.fst = (cuts f).flatten)
    {c : Client} (hc : s'.clients[k]? = some c) (halive : c.Alive)
    (hundisturbed : Undisturbed toISOString port (.voip snappy lib) debug s after k) :
    ∃ protocol filter termination packets,
      (connections (before ++ [.client k .constructed] ++ after))[k]? =
        some (protocol, filter, termination) ∧
      (∀ f, Machine.project f packets = (blocks f).flatMap Pcap.Block.packets) ∧
      (let expected := Client.rendered toISOString port filter (packets.map Prod.snd)
        let waiting := Client.rendered toISOString port filter c.posted
        let written := Client.wroteOf (seen k (o ++ o'))
        (written ++ waiting).Perm expected ∧
        ((∀ i, .client k (.run i) ∈ before ++ [.client k .constructed] ++ after → i = 0) →
          written ++ waiting = expected)) := by
  have hrun := (machine toISOString port (.voip snappy lib) debug).run_append hbefore hafter
  obtain ⟨protocol, filter, termination, es, hconnection, hclient, hes⟩ :=
    (run_projects hrun).runs k c hc
  have hledger := Client.run_ledger hclient
  obtain ⟨packets, -, hpackets, hblocks⟩ :=
    Pcap.all_voip_blocks hdistinct blocks cuts hcuts hpresents hsegments
  have hposted := (alive_posted hbefore hafter hc halive).2.mpr hundisturbed
  rw [hfirst, hpackets] at hposted
  refine ⟨protocol, filter, termination, packets, hconnection, hblocks, ?_, ?_⟩
  · rw [← hposted]
    exact hledger.perm
  · intro hfifo
    rw [← hposted]
    refine hledger.fifo fun i hi => ?_
    rcases hes _ hi with ⟨p, hp⟩ | hi
    · cases hp
    · exact hfifo i hi

/-- A flow with a block of one record, in two segments, and a client for everything. -/
theorem blocks_reach_client_one :
    let flow : Pcap.Flow := ⟨.v4 #v[10, 0, 0, 1], 1, .v4 #v[10, 0, 0, 2], 80⟩
    let lib : Pcap.Reassembly Unit := ⟨fun _ data _ => ((), [⟨some data, flow.connectionData⟩])⟩
    let frames := [Pcap.oneRecordBlock.bytes.take 64, Pcap.oneRecordBlock.bytes.drop 64]
    ∃ s o c, (machine (fun _ => "") 0 (.voip (fun _ _ => .other) lib) false).run
        (fresh false ((), .fresh))
        ([.connect .tcp [42] true, .client 0 .constructed] ++ [.sniffer .complete,
          .sniffer (.ready none ⟨0, 0⟩ (frames.map fun frame => .packet frame ⟨0, 0⟩))]) =
        .ok (s, o) ∧
      s.clients[0]? = some c ∧
      Client.wroteOf (seen 0 o) ++ Client.rendered (fun _ => "") 0 [42] c.posted =
        Client.rendered (fun _ => "") 0 [42] Pcap.oneRecordBlock.packets := by
  intro flow lib frames
  have hlength : Pcap.oneRecordBlock.bytes.length = 123 := rfl
  have hcut : Pcap.IsCut 64 Pcap.oneRecordBlock.bytes frames :=
    ⟨by simp [frames], by simp [frames, ← List.length_pos_iff, hlength],
      by simp [frames, hlength]⟩
  have hpresents : Pcap.Presents lib (fun _ : Unit => flow) () (frames.map fun frame =>
      (frame, ⟨0, 0⟩)) (frames.map fun frame => ((), frame, ⟨0, 0⟩)) :=
    .segment rfl (.segment rfl (.nil ()))
  have hsegments : ∀ f : Unit, (Machine.project f (frames.map fun frame =>
      ((), frame, (⟨0, 0⟩ : Pcap.Timeval)))).map Prod.fst = [frames].flatten := by
    intro f
    simp [Machine.project, frames]
  have hflows : Function.Injective fun _ : Unit => flow.endpoints := fun _ _ _ => rfl
  obtain ⟨packets, hstays, hpackets, hblocks⟩ := Pcap.all_voip_blocks hflows
    (fun _ => [Pcap.oneRecordBlock]) (fun _ => [frames])
    (fun _ => .cons hcut .nil) hpresents hsegments
  obtain ⟨p, hp⟩ : ∃ p, Pcap.oneRecordBlock.packets = [p] := ⟨_, rfl⟩
  have hone : packets.map Prod.snd = [p] := by
    have hall : Machine.project () packets = packets.map Prod.snd := by
      simp [Machine.project]
    rw [← hall, hblocks (), List.flatMap_singleton, hp]
  rw [hone] at hpackets
  generalize hnext : (frames.map fun frame => Pcap.NextEx.packet frame ⟨0, 0⟩) = next
  have hframes : Pcap.Sniffer.frames next = frames.map fun frame => (frame, ⟨0, 0⟩) := by
    rw [← hnext]
    rfl
  have hparsed : ((Pcap.IParser.voip (fun _ _ => .other) lib).all ((), .fresh)
      (Pcap.Sniffer.frames next)).2 = [p] := by
    rw [hframes]
    exact hpackets
  have hbefore : (machine (fun _ => "") 0 (.voip (fun _ _ => .other) lib) false).run
      (fresh false ((), .fresh)) ([.connect .tcp [42] true] ++ [.client 0 .constructed]) =
      .ok (⟨.fresh false ((), .fresh), [lone []]⟩, []) := run_lone false ((), Pcap.VoIP.fresh)
  obtain ⟨sniffer, errors, hafter⟩ : ∃ sniffer, ∃ errors : List Pcap.CaptureError,
      (machine (fun _ => "") 0 (.voip (fun _ _ => .other) lib) false).run
        ⟨.fresh false ((), .fresh), [lone []]⟩
        [.sniffer .complete, .sniffer (.ready none ⟨0, 0⟩ next)] =
      .ok (⟨sniffer, [lone [p]]⟩, .sniffer (.notified p) :: .client 0 (.posted p) ::
        errors.map fun e => .sniffer (.failed e)) :=
    run_lone_ready (by rwa [hframes]) hparsed
  have hpresents' : Pcap.Presents lib (fun _ : Unit => flow) ()
      ([Event.sniffer .complete, .sniffer (.ready none ⟨0, 0⟩ next)].flatMap readOf)
      (frames.map fun frame => ((), frame, ⟨0, 0⟩)) := by
    have hread : [Event.sniffer .complete, .sniffer (.ready none ⟨0, 0⟩ next)].flatMap readOf =
        Pcap.Sniffer.frames next := List.append_nil _
    rw [hread, hframes]
    exact hpresents
  obtain ⟨protocol, filter, termination, packets', hconnection, hblocks', -, hfifo⟩ :=
    blocks_reach_client hflows (fun _ => [Pcap.oneRecordBlock]) (fun _ => [frames])
      (fun _ => .cons hcut .nil) hbefore rfl hafter hpresents' hsegments rfl (.inl rfl)
      (undisturbed_zero _ _)
  obtain ⟨rfl, rfl, rfl⟩ : Protocol.tcp = protocol ∧ [42] = filter ∧ true = termination := by
    simpa [connections] using hconnection
  refine ⟨_, _, _, (machine _ _ _ _).run_append hbefore hafter, rfl, ?_⟩
  have hwritten := hfifo (by simp)
  have hall : packets'.map Prod.snd = Pcap.oneRecordBlock.packets := by
    have hall : Machine.project () packets' = packets'.map Prod.snd := by
      simp [Machine.project]
    rw [← hall, hblocks' (), List.flatMap_singleton]
  rw [hall] at hwritten
  exact hwritten

end Capture
end NetComponents.Livecapture
