import NetComponents.Pcap.Flows

/-!
# The two directions of a connection

The reassembly library passes the side that sent a piece of data to the callback, which
drops it; the rest of what it passes is the same for both sides of a connection. So the
data of both sides reaches one reassembler of blocks.
-/

namespace NetComponents.Pcap

open Library

/-- A `pcpp::RawPacket`, as the callbacks that the library makes for it: the side and the bytes. -/
structure RawPacket where
  callbacks : List (ℕ × Bytes)
  ts : Timeval

namespace RawPacket

/-- The frame as if nobody but side 0 had sent anything. -/
def onlySideZero (raw : RawPacket) : RawPacket :=
  { raw with callbacks := raw.callbacks.filter fun c => c.1 = 0 }

/-- The side of the last callback, whose data is what the parser's slot holds afterwards. -/
def side (raw : RawPacket) : ℕ := (raw.callbacks.getLast?.map Prod.fst).getD 0

end RawPacket

/-- The callbacks of a frame of the connection; `fOnMsgReady` does not use the side. -/
def Flow.sidedCall (f : Flow) (raw : RawPacket) : Call :=
  ⟨raw.callbacks.map fun c => ⟨some c.2, f.connectionData⟩, raw.ts⟩

/-- `VoIP::packets` on the frames of one connection, with every delivered packet marked with
the side whose data delivered it. -/
def VoIP.sided (snappy : Snappy) (f : Flow) : Machine Stop VoIP RawPacket (ℕ × Packet) where
  step v raw := (v.packets snappy (f.sidedCall raw)).map fun r =>
    (r.1, r.2.map (Prod.mk raw.side))

section Frames

variable (snappy : Snappy) (f : Flow)

/-- The reassembler of the connection. -/
def VoIP.reassembler (v : VoIP) : Reassembler := (v.reasms f.key).getD Reassembler.fresh

/-- A frame without data changes nothing. -/
theorem step_empty (v : VoIP) (hbase : v.base = TCPReassembler.fresh) {raw : RawPacket}
    (hempty : raw.callbacks = []) : (VoIP.sided snappy f).step v raw = .ok (v, []) := by
  obtain ⟨base, reasms⟩ := v
  cases hbase
  simp [VoIP.sided, VoIP.packets, Flow.sidedCall, hempty, TCPReassembler.packets, VoIP.processAll,
    Except.map]

/-- A frame with data hands the data of its last callback to the reassembler. -/
theorem step_last (v : VoIP) {raw : RawPacket} {earlier : List (ℕ × Bytes)} {side : ℕ}
    {segment : Bytes} (hlast : raw.callbacks = earlier ++ [(side, segment)]) :
    (VoIP.sided snappy f).step v raw =
      ((v.reassembler f).process snappy segment).map fun r =>
        (⟨TCPReassembler.fresh, Function.update v.reasms f.key (some r.1)⟩,
          r.2.map (Prod.mk side)) := by
  have hcall : v.base.packets (f.sidedCall raw) =
      TCPReassembler.packets ((earlier.map fun c => ⟨some c.2, f.connectionData⟩).foldl
        TCPReassembler.onMsgReady v.base) (f.call segment raw.ts) := by
    simp [TCPReassembler.packets, Flow.sidedCall, Flow.call, hlast]
  obtain ⟨p, hpackets, rfl, hkey⟩ := f.packets_call segment raw.ts
    ((earlier.map fun c => ⟨some c.2, f.connectionData⟩).foldl TCPReassembler.onMsgReady v.base)
  rw [hpackets] at hcall
  have hside : raw.side = side := by simp [RawPacket.side, hlast]
  simp only [VoIP.sided, VoIP.packets, hcall, VoIP.processAll, VoIP.processPacket, hkey, hside,
    VoIP.reassembler, pure_ok]
  cases ((v.reasms f.key).getD Reassembler.fresh).process snappy p.data with
  | error e => rfl
  | ok r => simp [Except.map]

end Frames

namespace Reassembler

/-- The bytes are no block header, or they are a block of their own. -/
def Refused (segment : Bytes) : Prop :=
  (∃ what, BlockHeader.read segment = .error (.exception what)) ∨
    ∃ h, BlockHeader.read segment = .ok h ∧ h.total ≤ segment.length

/-- The segment leaves no trace in the reassembler: it is too short for a first header, it is
refused between two blocks, or it is empty. A first header that is refused is noticed by short
segments only, of which there are none if `long` holds. -/
def Unseen (long : Prop) (r : Reassembler) (segment : Bytes) : Prop :=
  match r.state with
  | .waitHeader => segment.length < hdrSize ∨ long ∧ r = fresh ∧ Refused segment
  | .readHeader => r = reset ∧ Refused segment
  | .readBody => segment = [] ∧ r.buffer.length < r.dataSize

/-- Two reassemblers that long segments cannot tell apart. -/
def Alike (long : Prop) (r r' : Reassembler) : Prop :=
  r = r' ∨ long ∧ r = reset ∧ r' = fresh

variable (snappy : Snappy)

theorem process_refused {segment : Bytes} (h : Refused segment) :
    ∃ ps, process snappy reset segment = .ok (reset, ps) := by
  have hparse : parse snappy reset segment = parseHeader snappy reset segment := rfl
  rcases h with ⟨what, hread⟩ | ⟨h, hread, htotal⟩
  · have hthrows : parse snappy reset segment = .error (.exception what) := by
      rw [hparse, parseHeader, hread]
      rfl
    exact ⟨[], process_throw snappy hthrows⟩
  · have hdecode : parseHeader snappy reset segment =
        (decodeBlock snappy segment h).map fun ps => (reset, ps) := by
      rw [parseHeader, hread, ok_bind, if_neg (by omega)]
      rfl
    rcases decodeBlock_contained snappy htotal with ⟨ps, hps⟩ | ⟨what, hwhat⟩
    · refine ⟨ps, ?_⟩
      rw [process_return snappy (by rw [hparse, hdecode, hps]; rfl), ite_self]
    · have hthrows : parse snappy reset segment = .error (.exception what) := by
        rw [hparse, hdecode, hwhat]
        rfl
      exact ⟨[], process_throw snappy hthrows⟩

/-- The first header may have been refused before. -/
theorem process_fresh {segment : Bytes} (hlong : hdrSize ≤ segment.length) :
    process snappy fresh segment = process snappy reset segment := by
  unfold process
  rw [parse_start snappy (r := fresh) (by decide) hlong,
    parse_start snappy (r := reset) (by decide) hlong]
  rfl

theorem process_alike {long : Prop} {r r' : Reassembler} {segment : Bytes}
    (h : Alike long r r') (hlong : long → hdrSize ≤ segment.length) :
    process snappy r segment = process snappy r' segment := by
  rcases h with rfl | ⟨hl, rfl, rfl⟩
  · rfl
  · exact (process_fresh snappy (hlong hl)).symm

theorem process_unseen {long : Prop} {r r' : Reassembler} {segment : Bytes}
    (h : Alike long r r') (hunseen : Unseen long r segment) :
    ∃ r₁ ps, process snappy r segment = .ok (r₁, ps) ∧ Alike long r₁ r' := by
  have hstays : parse snappy r segment = .ok (r, []) →
      ∃ r₁ ps, process snappy r segment = .ok (r₁, ps) ∧ Alike long r₁ r' := by
    intro hparse
    exact ⟨r, [], process_return snappy hparse, h⟩
  unfold Unseen at hunseen
  cases hstate : r.state with
  | waitHeader =>
    simp only [hstate] at hunseen
    by_cases hshort : segment.length < hdrSize
    · apply hstays
      simp only [parse, hstate, if_pos hshort]
    · obtain ⟨hl, rfl, hrefused⟩ := hunseen.resolve_left hshort
      obtain ⟨ps, hps⟩ := process_refused snappy hrefused
      refine ⟨reset, ps, (process_fresh snappy (by omega)).trans hps, ?_⟩
      rcases h with rfl | ⟨-, hreset, -⟩
      · exact .inr ⟨hl, rfl, rfl⟩
      · cases hreset
  | readHeader =>
    simp only [hstate] at hunseen
    obtain ⟨rfl, hrefused⟩ := hunseen
    obtain ⟨ps, hps⟩ := process_refused snappy hrefused
    exact ⟨reset, ps, hps, h⟩
  | readBody =>
    simp only [hstate] at hunseen
    obtain ⟨rfl, hmore⟩ := hunseen
    apply hstays
    rw [parse_body snappy [] hstate, List.append_nil, if_neg (by omega)]
    obtain ⟨buffer, dataSize, state⟩ := r
    cases hstate
    rfl

end Reassembler

section Sides

variable (snappy : Snappy) (f : Flow)

/-- Data of the other side that the parser hands on comes alone in its frame, and leaves no trace
in the reassembler. -/
def Apart (long : Prop) (v : VoIP) (raw : RawPacket) : Prop :=
  ∀ earlier side segment, raw.callbacks = earlier ++ [(side, segment)] →
    if side = 0 then long → hdrSize ≤ segment.length
    else (∀ c ∈ earlier, c.1 ≠ 0) ∧ (v.reassembler f).Unseen long segment

/-- Two parsers whose reassemblers of the connection are alike. -/
structure AlikeVoIP (long : Prop) (v v' : VoIP) : Prop where
  base : v.base = TCPReassembler.fresh
  base' : v'.base = TCPReassembler.fresh
  alike : (v.reassembler f).Alike long (v'.reassembler f)

theorem reassembler_update (base : TCPReassembler) (reasms : String → Option Reassembler)
    (r : Reassembler) :
    VoIP.reassembler f ⟨base, Function.update reasms f.key (some r)⟩ = r := by
  simp [VoIP.reassembler]

theorem sided_step {long : Prop} {v v' : VoIP} {raw : RawPacket} (h : AlikeVoIP f long v v')
    (happart : Apart f long v raw) :
    Machine.SameView (AlikeVoIP f long) (Machine.project 0)
      ((VoIP.sided snappy f).step v raw)
      ((VoIP.sided snappy f).step v' raw.onlySideZero) := by
  rcases List.eq_nil_or_concat raw.callbacks with hempty | ⟨earlier, ⟨side, segment⟩, hlast⟩
  · have hempty' : raw.onlySideZero.callbacks = [] := by simp [RawPacket.onlySideZero, hempty]
    rw [step_empty snappy f v h.base hempty, step_empty snappy f v' h.base' hempty']
    exact ⟨h, rfl⟩
  · rw [List.concat_eq_append] at hlast
    have hcond := happart earlier side segment hlast
    rw [step_last snappy f v hlast]
    by_cases hside : side = 0
    · subst hside
      rw [if_pos rfl] at hcond
      have hlast' : raw.onlySideZero.callbacks =
          earlier.filter (fun c => c.1 = 0) ++ [(0, segment)] := by
        simp [RawPacket.onlySideZero, hlast]
      rw [step_last snappy f v' hlast', Reassembler.process_alike snappy h.alike hcond]
      cases (v'.reassembler f).process snappy segment with
      | error e => rfl
      | ok r =>
        refine ⟨⟨rfl, rfl, ?_⟩, rfl⟩
        rw [reassembler_update, reassembler_update]
        exact .inl rfl
    · rw [if_neg hside] at hcond
      obtain ⟨hothers, hunseen⟩ := hcond
      have hempty : raw.onlySideZero.callbacks = [] := by
        rw [RawPacket.onlySideZero, hlast, List.filter_eq_nil_iff]
        intro c hc
        rcases List.mem_append.mp hc with hc | hc
        · simpa using hothers c hc
        · rw [List.mem_singleton.mp hc]
          simpa using hside
      obtain ⟨r, ps, hprocess, halike⟩ := Reassembler.process_unseen snappy h.alike hunseen
      rw [step_empty snappy f v' h.base' hempty, hprocess]
      refine ⟨⟨rfl, h.base', ?_⟩, Machine.project_map_ne hside ps⟩
      rwa [reassembler_update]

/-- The packets of side 0 are the same as if nobody else had sent anything, when all data of
the other side stays apart. -/
theorem other_side_unseen (long : Prop) (raws : List RawPacket)
    (happart : ∀ earlier raw, earlier ++ [raw] <+: raws → ∀ v out,
      (VoIP.sided snappy f).run VoIP.fresh earlier = .ok (v, out) → Apart f long v raw) :
    ((VoIP.sided snappy f).run VoIP.fresh raws).map (fun r => Machine.project 0 r.2) =
      ((VoIP.sided snappy f).run VoIP.fresh (raws.map RawPacket.onlySideZero)).map
        (fun r => Machine.project 0 r.2) := by
  have hfresh : AlikeVoIP f long VoIP.fresh VoIP.fresh := ⟨rfl, rfl, .inl rfl⟩
  exact ((VoIP.sided snappy f).run_unwinding (Machine.project_append 0) RawPacket.onlySideZero
    (Apart f long) (fun v v' raw h hcond => sided_step snappy f h hcond) hfresh happart).map_eq

/-- The other side sends less than a header before the block begins. -/
theorem other_side_unseen_before :
    ((VoIP.sided (fun _ _ => .other) ⟨.v4 #v[10, 0, 0, 1], 1, .v4 #v[10, 0, 0, 2], 80⟩).run
        VoIP.fresh [⟨[(1, [1])], ⟨0, 0⟩⟩, ⟨[(0, oneRecordBlock.bytes)], ⟨0, 1⟩⟩]).map
          (fun r => Machine.project 0 r.2) =
      ((VoIP.sided (fun _ _ => .other) ⟨.v4 #v[10, 0, 0, 1], 1, .v4 #v[10, 0, 0, 2], 80⟩).run
        VoIP.fresh ([⟨[(1, [1])], ⟨0, 0⟩⟩, ⟨[(0, oneRecordBlock.bytes)], ⟨0, 1⟩⟩].map
          RawPacket.onlySideZero)).map (fun r => Machine.project 0 r.2) := by
  apply other_side_unseen _ _ False
  intro earlier raw hprefix v out hrun before side segment hlast
  have hone : ∀ c : ℕ × Bytes, [c] = before ++ [(side, segment)] →
      before = [] ∧ (side, segment) = c := by
    intro c hc
    rw [List.singleton_eq_append_iff] at hc
    simpa using hc
  rcases earlier with _ | ⟨first, _ | ⟨second, rest⟩⟩
  · obtain rfl : raw = ⟨[(1, [1])], ⟨0, 0⟩⟩ := by simpa using hprefix
    cases hrun
    obtain ⟨rfl, hc⟩ := hone _ hlast
    cases hc
    exact ⟨by simp, .inl (by decide)⟩
  · obtain ⟨-, rfl⟩ : first = _ ∧ raw = ⟨[(0, oneRecordBlock.bytes)], ⟨0, 1⟩⟩ := by
      simpa using hprefix
    obtain ⟨rfl, hc⟩ := hone _ hlast
    cases hc
    exact fun hlong => hlong.elim
  · simp at hprefix

/-- One byte of the other side arrives inside a block: the packet of the block is not delivered. -/
theorem other_side_spoils_block :
    ((VoIP.sided (fun _ _ => .other) ⟨.v4 #v[10, 0, 0, 1], 1, .v4 #v[10, 0, 0, 2], 80⟩).run
        VoIP.fresh [⟨[(0, oneRecordBlock.bytes.take 64)], ⟨0, 0⟩⟩, ⟨[(1, [1])], ⟨0, 1⟩⟩,
          ⟨[(0, oneRecordBlock.bytes.drop 64)], ⟨0, 2⟩⟩]).map
        (fun r => Machine.project 0 r.2) = .ok [] ∧
    ((VoIP.sided (fun _ _ => .other) ⟨.v4 #v[10, 0, 0, 1], 1, .v4 #v[10, 0, 0, 2], 80⟩).run
        VoIP.fresh [⟨[(0, oneRecordBlock.bytes.take 64)], ⟨0, 0⟩⟩, ⟨[], ⟨0, 1⟩⟩,
          ⟨[(0, oneRecordBlock.bytes.drop 64)], ⟨0, 2⟩⟩]).map
        (fun r => Machine.project 0 r.2) = .ok oneRecordBlock.packets := by
  decide +kernel

end Sides

end NetComponents.Pcap
