import NetComponents.Library.Machine
import NetComponents.Pcap.Parsers

/-!
# The TCP stream parser

`TCPReassembler::packets` hands a frame to the reassembly library, which calls
back for each piece of stream data that became ready. The callback stores the
piece in the one slot `data_`, `len_`, `info_` of the parser, and the slot is
drained once after the call. What the library does with a frame is an input of
the model: the list of callbacks it makes. The slot keeps a pointer to the bytes
of a callback, and they are read when `reassemblePacket` has returned: the
library is assumed to leave them as they are until then.
-/

namespace NetComponents.Pcap

open Library

/-- `pcpp::IPAddress`: its type and its `toString()`. -/
structure IPAddress where
  isIPv6 : Bool
  text : String
  deriving DecidableEq, Repr

structure ConnectionData where
  srcIP : Option IPAddress
  dstIP : Option IPAddress
  srcPort : ℕ
  dstPort : ℕ
  deriving DecidableEq, Repr

/-- `pcpp::TcpStreamData`. Its data pointer may be null. -/
structure TcpStreamData where
  data : Option Bytes
  connectionData : ConnectionData
  deriving DecidableEq, Repr

def TcpStreamData.bytes (d : TcpStreamData) : Bytes := d.data.getD []

/-- A call of `packets`: the callbacks that the library makes, and the time. -/
structure Call where
  callbacks : List TcpStreamData
  ts : Timeval

structure TCPReassembler where
  data : Option Bytes
  info : PacketInfo
  deriving DecidableEq, Repr

namespace TCPReassembler

def fresh : TCPReassembler := ⟨none, {}⟩

/-- The callback `fOnMsgReady`. The data that it points to are still there when
`reassemblePacket` has returned. -/
def onMsgReady (self : TCPReassembler) (tcpData : TcpStreamData) : TCPReassembler :=
  let cd := tcpData.connectionData
  let pi := { self.info with
    proto := PacketInfo.IPProto.kTCP, srcPort := cd.srcPort, dstPort := cd.dstPort }
  let pi := match cd.srcIP with
    | some ip => { pi with
        ip := if ip.isIPv6 then PacketInfo.IPVersion.kIPv6 else PacketInfo.IPVersion.kIPv4
        srcAddr := ip.text }
    | none => pi
  let pi := match cd.dstIP with
    | some ip => { pi with dstAddr := ip.text }
    | none => pi
  ⟨tcpData.data, pi⟩

@[simp] theorem data_onMsgReady (self : TCPReassembler) (tcpData : TcpStreamData) :
    (self.onMsgReady tcpData).data = tcpData.data := rfl

def packets (self : TCPReassembler) (call : Call) : TCPReassembler × List Packet :=
  let self := call.callbacks.foldl onMsgReady self
  match self.data with
  | some data => (fresh, [⟨data, { self.info with ts := call.ts }⟩])
  | none => (self, [])

def machine : Machine Stop TCPReassembler Call Packet where
  step self call := .ok (self.packets call)

/-- The bytes of the last callback, which are the ones that the slot holds. -/
def lastBytes (callbacks : List TcpStreamData) : Bytes :=
  callbacks.getLast?.elim [] TcpStreamData.bytes

theorem data_foldl_onMsgReady (callbacks : List TcpStreamData) {self : TCPReassembler}
    (h : self.data = none) :
    (callbacks.foldl onMsgReady self).data.getD [] = lastBytes callbacks := by
  induction callbacks using List.reverseRecOn with
  | nil => simp [h, lastBytes]
  | append_singleton callbacks last ih => simp [lastBytes, TcpStreamData.bytes]

/-- One call empties the slot and returns the bytes of its last callback. -/
theorem packets_effect {self : TCPReassembler} (h : self.data = none) (call : Call) :
    (self.packets call).1.data = none ∧
      (self.packets call).2.flatMap Packet.data = lastBytes call.callbacks := by
  have hlast := data_foldl_onMsgReady call.callbacks h
  unfold packets
  cases hdata : (call.callbacks.foldl onMsgReady self).data with
  | none =>
    simp only [hdata] at hlast ⊢
    exact ⟨trivial, hlast⟩
  | some data =>
    simp only [hdata] at hlast ⊢
    exact ⟨rfl, by simpa using hlast⟩

theorem run_packets (calls : List Call) {self : TCPReassembler} (h : self.data = none) :
    ∃ s out, machine.run self calls = .ok (s, out) ∧
      out.flatMap Packet.data = calls.flatMap fun call => lastBytes call.callbacks := by
  induction calls generalizing self with
  | nil => exact ⟨self, [], rfl, rfl⟩
  | cons call calls ih =>
    obtain ⟨hnone, hbytes⟩ := packets_effect h call
    obtain ⟨s, out, hrun, hrest⟩ := ih hnone
    refine ⟨s, (self.packets call).2 ++ out, machine.run_cons rfl hrun, ?_⟩
    rw [List.flatMap_append, hbytes, hrest, List.flatMap_cons]

/-- The bytes of all callbacks of a call. -/
def allBytes (callbacks : List TcpStreamData) : Bytes := callbacks.flatMap TcpStreamData.bytes

theorem allBytes_eq (callbacks : List TcpStreamData) :
    allBytes callbacks = allBytes callbacks.dropLast ++ lastBytes callbacks := by
  induction callbacks using List.reverseRecOn with
  | nil => rfl
  | append_singleton callbacks last ih => simp [allBytes, lastBytes]

theorem lastBytes_eq_iff (callbacks : List TcpStreamData) :
    lastBytes callbacks = allBytes callbacks ↔
      ∀ tcpData ∈ callbacks.dropLast, tcpData.bytes = [] := by
  rw [allBytes_eq, List.self_eq_append_left, allBytes, List.flatMap_eq_nil_iff]

/-- The packets returned so far hold the bytes of the callbacks so far exactly
when no callback but the last one of a call carries any: each callback
overwrites the slot, and only what it holds after the call is returned. -/
theorem packets_keep_data_iff (calls : List Call) :
    ∃ s out, machine.run fresh calls = .ok (s, out) ∧
      (out.flatMap Packet.data =
          (calls.flatMap Call.callbacks).flatMap TcpStreamData.bytes ↔
        ∀ call ∈ calls, ∀ tcpData ∈ call.callbacks.dropLast, tcpData.bytes = []) := by
  obtain ⟨s, out, hrun, hbytes⟩ := @run_packets calls fresh rfl
  have hshort : ∀ call ∈ calls,
      (lastBytes call.callbacks).length ≤ (allBytes call.callbacks).length := by
    intro call _
    rw [allBytes_eq]
    simp
  refine ⟨s, out, hrun, ?_⟩
  rw [hbytes, List.flatMap_assoc]
  exact (flatMap_eq_flatMap_iff hshort).trans
    (forall₂_congr fun call _ => lastBytes_eq_iff call.callbacks)

/-- A segment that fills a gap releases the buffered one behind it: two callbacks
in one call, of which the first is lost. -/
theorem packets_lose_first_callback :
    ∃ s out, machine.run fresh
        [⟨[⟨some [1], ⟨none, none, 1000, 2000⟩⟩, ⟨some [2], ⟨none, none, 1000, 2000⟩⟩],
          ⟨0, 0⟩⟩] = .ok (s, out) ∧
      out.flatMap Packet.data = [2] ∧
      allBytes [⟨some [1], ⟨none, none, 1000, 2000⟩⟩, ⟨some [2], ⟨none, none, 1000, 2000⟩⟩] =
        [1, 2] := by
  exact ⟨_, _, rfl, rfl, rfl⟩

end TCPReassembler
end NetComponents.Pcap
