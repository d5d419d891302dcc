import NetComponents.Pcap.BlockStream

/-!
# Independent flows

The key of a reassembler joins addresses and ports with separators. An address
text has no dash and a port has no colon, so the key determines all four of
them, and two flows never share a reassembler. The interleaved run of all flows
is then simulated by one reassembler for each flow.
-/

namespace NetComponents.Pcap

open Library

/-- An address, known by its `inet_ntop` text. -/
inductive Address where
  | v4 (bytes : Vector UInt8 4)
  | v6 (bytes : Vector UInt8 16)

namespace Address

def text : Address → String
  | v4 bytes => inetNtop4 bytes.toList
  | v6 bytes => inetNtop6 bytes.toList

def ip : Address → IPAddress
  | v4 bytes => ⟨false, inetNtop4 bytes.toList⟩
  | v6 bytes => ⟨true, inetNtop6 bytes.toList⟩

theorem text_ip (a : Address) : a.ip.text = a.text := by
  cases a <;> rfl

theorem dashless_text (a : Address) : Dashless a.text := by
  cases a with
  | v4 bytes => exact dashless_inetNtop4 _
  | v6 bytes => exact dashless_inetNtop6 _

end Address

structure Flow where
  src : Address
  srcPort : ℕ
  dst : Address
  dstPort : ℕ

namespace Flow

def connectionData (f : Flow) : ConnectionData :=
  ⟨some f.src.ip, some f.dst.ip, f.srcPort, f.dstPort⟩

/-- What distinguishes flows. -/
def endpoints (f : Flow) : String × ℕ × String × ℕ :=
  (f.src.text, f.srcPort, f.dst.text, f.dstPort)

/-- The reassembly library has one segment of the flow ready. -/
def call (f : Flow) (segment : Bytes) (ts : Timeval) : Call :=
  ⟨[⟨some segment, f.connectionData⟩], ts⟩

def key (f : Flow) : String :=
  f.src.text ++ ":" ++ toString f.srcPort ++ "-->" ++ f.dst.text ++ ":" ++ toString f.dstPort

theorem colonless_toString (n : ℕ) : ':' ∉ (toString n).toList := by
  intro h
  have := digits_of_toString h
  simp [Char.isDigit] at this

/-- The key of a flow determines its endpoints. -/
theorem endpoints_eq_of_key {f g : Flow} (h : f.key = g.key) : f.endpoints = g.endpoints := by
  have hlist : (f.src.text.toList ++ ':' :: (toString f.srcPort).toList) ++
        '-' :: '-' :: '>' :: (f.dst.text.toList ++ ':' :: (toString f.dstPort).toList) =
      (g.src.text.toList ++ ':' :: (toString g.srcPort).toList) ++
        '-' :: '-' :: '>' :: (g.dst.text.toList ++ ':' :: (toString g.dstPort).toList) := by
    simpa [key] using congrArg String.toList h
  have hdashless : ∀ e : Flow, '-' ∉ e.src.text.toList ++ ':' :: (toString e.srcPort).toList := by
    intro e
    have haddr := e.src.dashless_text
    have hport := dashless_toString e.srcPort
    unfold Dashless at haddr hport
    simp only [List.mem_append, List.mem_cons, haddr, hport, false_or, or_false]
    decide
  obtain ⟨hsrc, hrest⟩ := append_cons_inj_first (hdashless f) (hdashless g) hlist
  obtain ⟨haddr, hport⟩ := append_cons_inj_last (colonless_toString _) (colonless_toString _) hsrc
  have hdst : f.dst.text.toList ++ ':' :: (toString f.dstPort).toList =
      g.dst.text.toList ++ ':' :: (toString g.dstPort).toList := by
    simpa using hrest
  obtain ⟨haddr', hport'⟩ := append_cons_inj_last (colonless_toString _) (colonless_toString _) hdst
  unfold endpoints
  rw [String.toList_inj.mp haddr, toString_nat_injective (String.toList_inj.mp hport),
    String.toList_inj.mp haddr', toString_nat_injective (String.toList_inj.mp hport')]

/-- The packet of a segment carries the endpoints of its flow. -/
theorem packets_call (f : Flow) (segment : Bytes) (ts : Timeval) (base : TCPReassembler) :
    ∃ p, base.packets (f.call segment ts) = (TCPReassembler.fresh, [p]) ∧
      p.data = segment ∧ streamKey p.info = f.key := by
  refine ⟨⟨segment, { (base.onMsgReady ⟨some segment, f.connectionData⟩).info with ts := ts }⟩,
    rfl, rfl, ?_⟩
  unfold streamKey key
  rw [← f.src.text_ip, ← f.dst.text_ip]
  rfl

end Flow

/-- `VoIP::packets` on the segments of many flows, with every delivered packet
marked with the flow of the segment that delivered it. -/
def VoIP.presented (snappy : Snappy) {κ : Type} (flow : κ → Flow) :
    Machine Stop VoIP (κ × Bytes × Timeval) (κ × Packet) where
  step v i := (v.packets snappy ((flow i.1).call i.2.1 i.2.2)).map fun r =>
    (r.1, r.2.map (Prod.mk i.1))

/-- The reassembler of one flow, which does not look at the times. -/
def Reassembler.timed (snappy : Snappy) : Machine Stop Reassembler (Bytes × Timeval) Packet where
  step r i := r.process snappy i.1

section Simulation

variable (snappy : Snappy) {κ : Type} [DecidableEq κ] (flow : κ → Flow)

/-- The map holds the reassembler of every flow under its key. -/
def Represents (v : VoIP) (rs : κ → Reassembler) : Prop :=
  ∀ k, (v.reasms (flow k).key).getD Reassembler.fresh = rs k

variable {flow}

/-- One segment of one flow: the call does what the reassembler of the flow does,
and touches no other. -/
theorem presented_simulates (hkeys : Function.Injective fun k => (flow k).key) {v : VoIP}
    {rs rs' : κ → Reassembler} (hv : Represents flow v rs) {i : κ × Bytes × Timeval}
    {out : List (κ × Packet)}
    (hstep : (Reassembler.timed snappy).family.step rs i = .ok (rs', out)) :
    ∃ v', (VoIP.presented snappy flow).step v i = .ok (v', out) ∧ Represents flow v' rs' := by
  obtain ⟨k, segment, ts⟩ := i
  obtain ⟨p, hpackets, rfl, hkey⟩ := (flow k).packets_call segment ts v.base
  cases hprocess : (rs k).process snappy p.data with
  | error e => simp [Machine.family, Reassembler.timed, hprocess] at hstep
  | ok result =>
    obtain ⟨r, res⟩ := result
    obtain ⟨rfl, rfl⟩ : Function.update rs k r = rs' ∧ res.map (Prod.mk k) = out := by
      simpa [Machine.family, Reassembler.timed, hprocess] using hstep
    refine ⟨⟨TCPReassembler.fresh, Function.update v.reasms (flow k).key (some r)⟩, ?_, ?_⟩
    · simp only [VoIP.presented, VoIP.packets, hpackets, VoIP.processAll, VoIP.processPacket, hkey,
        hv k, hprocess, ok_bind, pure_ok, Except.map, List.append_nil]
    · intro j
      by_cases hj : j = k
      · subst hj
        simp
      · have hother : (flow j).key ≠ (flow k).key := fun h => hj (hkeys h)
        simp only [Function.update_of_ne hother, Function.update_of_ne hj, hv j]

end Simulation

theorem Reassembler.run_timed {snappy : Snappy} {r r' : Reassembler}
    {inputs : List (Bytes × Timeval)} {out : List Packet}
    (h : (machine snappy).run r (inputs.map Prod.fst) = .ok (r', out)) :
    (timed snappy).run r inputs = .ok (r', out) := by
  induction inputs generalizing r out with
  | nil => exact h
  | cons i inputs ih =>
    rw [List.map_cons, Machine.run_cons_ok_iff] at h
    obtain ⟨r₁, o, o', hstep, hrun, rfl⟩ := h
    exact (timed snappy).run_cons hstep (ih hrun)

/-- However the segments of any number of flows are interleaved, what is delivered
for each flow are the packets of its blocks, once and in order. -/
theorem flows_do_not_interfere (snappy : Snappy) {κ : Type} [DecidableEq κ] (flow : κ → Flow)
    (hdistinct : Function.Injective fun k => (flow k).endpoints)
    (blocks : κ → List (Block snappy)) (cuts : κ → List (List Bytes))
    (hcuts : ∀ k, List.Forall₂ (fun b => IsCut 64 b.bytes) (blocks k) (cuts k))
    (inputs : List (κ × Bytes × Timeval))
    (hinputs : ∀ k, (Machine.project k inputs).map Prod.fst = (cuts k).flatten) :
    ∃ v out, (VoIP.presented snappy flow).run VoIP.fresh inputs = .ok (v, out) ∧
      ∀ k, Machine.project k out = (blocks k).flatMap Block.packets := by
  have hkeys : Function.Injective fun k => (flow k).key :=
    fun j k h => hdistinct (Flow.endpoints_eq_of_key h)
  have hsingle : ∀ k, ∃ r, (Reassembler.timed snappy).run Reassembler.fresh
      (Machine.project k inputs) = .ok (r, (blocks k).flatMap Block.packets) := by
    intro k
    obtain ⟨r, hrun⟩ := Reassembler.run_fresh_cuts (hcuts k)
    rw [← hinputs k] at hrun
    exact ⟨r, Reassembler.run_timed hrun⟩
  obtain ⟨rs, out, hrun, hproject⟩ :=
    (Reassembler.timed snappy).family_run (S := fun _ => Reassembler.fresh) inputs
      (fun k => ⟨_, _, (hsingle k).choose_spec⟩)
  obtain ⟨v, hv, -⟩ := (VoIP.presented snappy flow).run_simulation
    (Reassembler.timed snappy).family (Represents flow) id id
    (by
      intro v rs i rs' out hv hstep
      simpa using presented_simulates snappy hkeys hv hstep)
    (s := VoIP.fresh) (fun k => rfl) hrun
  refine ⟨v, out, by simpa using hv, ?_⟩
  intro k
  obtain ⟨r, hr⟩ := hsingle k
  exact (Prod.mk.inj (Except.ok.inj ((hproject k).symm.trans hr))).2

/-- Two flows between the same hosts, their blocks cut and interleaved. -/
theorem flows_do_not_interfere_two :
    ∃ v out, (VoIP.presented (fun _ _ => .other) fun k : Bool =>
        ⟨.v4 #v[10, 0, 0, 1], if k then 1 else 2, .v4 #v[10, 0, 0, 2], 80⟩).run VoIP.fresh
        [(true, oneRecordBlock.bytes.take 64, ⟨0, 0⟩), (false, oneRecordBlock.bytes, ⟨0, 1⟩),
          (true, oneRecordBlock.bytes.drop 64, ⟨0, 2⟩)] = .ok (v, out) ∧
      ∀ k, Machine.project k out = [oneRecordBlock].flatMap Block.packets := by
  have hlength : oneRecordBlock.bytes.length = 123 := rfl
  apply flows_do_not_interfere (fun _ _ => .other) _ _ (fun _ => [oneRecordBlock])
    (fun k => if k then [[oneRecordBlock.bytes.take 64, oneRecordBlock.bytes.drop 64]]
      else [[oneRecordBlock.bytes]])
  · intro k
    cases k with
    | false =>
      exact .cons ⟨by simp, by simp [← List.length_pos_iff, hlength], by simp [hlength]⟩ .nil
    | true =>
      exact .cons ⟨by simp, by simp [← List.length_pos_iff, hlength], by simp [hlength]⟩ .nil
  · intro k
    cases k <;> simp [Machine.project]
  · intro j k h
    cases j <;> cases k <;> simp [Flow.endpoints] at h ⊢

end NetComponents.Pcap
