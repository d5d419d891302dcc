import NetComponents.Pcap.TCPReassembler

/-!
# The VoIP monitor stream parser

A stream carries blocks: a header of 64 bytes, a table of offsets, and the
records, which may be compressed. `Reassembler` collects the segments of a block
and decodes it once it is complete; `VoIP` keeps one reassembler for each pair
of endpoints. The compression library is a parameter.
-/

namespace NetComponents.Pcap

open Library

/-- How `snappy_uncompress` ends, with the output on success. -/
inductive SnappyStatus where
  | ok (output : Bytes)
  | invalidInput
  | bufferTooSmall
  | other
  deriving DecidableEq, Repr

/-- `snappy_uncompress`, given the input and the capacity of the output buffer. -/
abbrev Snappy := Bytes → ℕ → SnappyStatus

/-- `VoIP::Reassembler::decompress` -/
def decompress (snappy : Snappy) (data : Bytes) (maxSize : ℕ) : Exec Bytes :=
  match snappy data (maxSize + 1) with
  | .ok output =>
    if output.length ≠ maxSize then
      .error (.exception "snappy_uncompress: bad uncompressed size")
    else .ok output
  | .invalidInput => .error (.exception "snappy_uncompress: invalid input")
  | .bufferTooSmall => .error (.exception "snappy_uncompress: buffer is too small")
  | .other => .error (.exception "snappy_uncompress: unknown error")

/-- `PCAP_BLOCK_STORE_HEADER_STRING` -/
def headerString : Bytes :=
  ['p', 'c', 'a', 'p', '_', 'b', 'l', 'o', 'c', 'k', '_', 's', 't', 'o', 'r', 'e'].map
    fun ch => UInt8.ofNat ch.toNat

/-- `sizeof(pcap_block_store_header)` -/
def hdrSize : ℕ := 64

/-- What `parse` takes from a `pcap_block_store_header`. -/
structure BlockHeader where
  count : ℕ
  size : ℕ
  sizeCompress : ℕ
  deriving DecidableEq, Repr

namespace BlockHeader

def dataSize (h : BlockHeader) : ℕ := if h.sizeCompress ≠ 0 then h.sizeCompress else h.size

def offsetsSize (h : BlockHeader) : ℕ := h.count * 4

/-- The size of the whole block. -/
def total (h : BlockHeader) : ℕ := hdrSize + h.offsetsSize + h.dataSize

/-- The header fields and the checks on them. All of them are in the first 32 bytes. -/
def read (payload : Bytes) : Exec BlockHeader := do
  let title ← Library.read payload 0 16
  if title ≠ headerString then throw (.exception "bad header title")
  else
    let count ← readNat payload 28 4
    if count = 0 then throw (.exception "bad packet count")
    else
      let sizeCompress ← readNat payload 24 4
      let size ← readNat payload 20 4
      let h : BlockHeader := ⟨count, size, sizeCompress⟩
      if h.dataSize = 0 ∨ sizeCompress > size then throw (.exception "bad data size")
      else return h

end BlockHeader

/-- The offsets from index `i` on, for `count` of them. -/
def readOffsets (payload : Bytes) (i : ℕ) : ℕ → Exec (List ℕ)
  | 0 => return []
  | count + 1 => do
    let offset ← readNat payload (hdrSize + 4 * i) 4
    let offsets ← readOffsets payload (i + 1) count
    return offset :: offsets

/-- The loop that checks the order of the offsets. It returns the last one. -/
def checkOffsets (lastOffset : ℕ) : List ℕ → Exec ℕ
  | [] => return lastOffset
  | offset :: offsets =>
    if lastOffset > offset then throw (.exception "bad offsets")
    else checkOffsets offset offsets

/-- `sizeof(pcap_pkthdr_plus2)` or `sizeof(pcap_pkthdr_plus)` -/
def recordHeaderSize (hm : ℕ) : ℕ := if hm = 1 then 58 else 34

/-- `VoIP::Reassembler::payload`: the position of the payload in a record. -/
def recordPayload (record : Bytes) (hm : ℕ) (info : PacketInfo) : Exec (ℕ × PacketInfo) := do
  let size := record.length
  if recordHeaderSize hm < size then
    let caplen ← readNat record 8 4
    let ipOffset ← readNat record 24 2
    if caplen < size ∧ ipOffset < size then
      let hsize ← minus size caplen
      let cap := hsize + ipOffset
      if cap < size then
        let sec ← readNat record 0 4
        let usec ← readNat record 4 4
        let capSize ← minus caplen ipOffset
        let captured ← read record cap capSize
        let (p, info) ← Smart.payload DLT_RAW captured { info with ts := ⟨sec, usec⟩ }
        return (cap + p, info)
      else return (size, info)
    else return (size, info)
  else return (size, info)

/-- The body of the loop of `VoIP::Reassembler::packets` for one record. -/
def recordPackets (data : Bytes) (offset pktSize hm : ℕ) : Exec (List Packet) := do
  if offset + pktSize ≤ data.length then
    let record ← read data offset pktSize
    let (p, info) ← recordPayload record hm {}
    if p < pktSize then return [⟨record.drop p, info⟩] else return []
  else return []

/-- `packetSize`: a record reaches to the next offset, the last one to the end of
the data. -/
def packetSize (size offset : ℕ) : List ℕ → Exec ℕ
  | [] => minus size offset
  | next :: _ => minus next offset

/-- `VoIP::Reassembler::packets` -/
def blockPackets (data : Bytes) (hm : ℕ) : List ℕ → Exec (List Packet)
  | [] => return []
  | offset :: offsets => do
    let pktSize ← packetSize data.length offset offsets
    let first ← recordPackets data offset pktSize hm
    let others ← blockPackets data hm offsets
    return first ++ others

/-- The part of `parse` behind the size check: decode a complete block. -/
def decodeBlock (snappy : Snappy) (payload : Bytes) (h : BlockHeader) : Exec (List Packet) := do
  let offsets ← readOffsets payload 0 h.count
  let lastOffset ← checkOffsets 0 offsets
  if lastOffset ≥ h.size then throw (.exception "bad last offset/data size")
  else
    let data ← read payload (hdrSize + h.offsetsSize) h.dataSize
    let hm ← readNat payload 46 1
    if h.dataSize < h.size then
      let tmpbuf ← decompress snappy data h.size
      blockPackets tmpbuf hm offsets
    else blockPackets data hm offsets

inductive State where
  | waitHeader
  | readHeader
  | readBody
  deriving DecidableEq, Repr

/-- `VoIP::Reassembler`, without the stream name that only the log shows. -/
structure Reassembler where
  buffer : Bytes
  dataSize : ℕ
  state : State
  deriving DecidableEq, Repr

namespace Reassembler

def fresh : Reassembler := ⟨[], 0, .waitHeader⟩

/-- What `reset` leaves, whatever was there before. -/
def reset : Reassembler := ⟨[], 0, .readHeader⟩

variable (snappy : Snappy)

/-- `parse` in the state `kREAD_HEADER`. -/
def parseHeader (r : Reassembler) (payload : Bytes) : Exec (Reassembler × List Packet) := do
  let h ← BlockHeader.read payload
  if h.total > payload.length then
    return (⟨r.buffer ++ payload, h.total, .readBody⟩, [])
  else
    let packets ← decodeBlock snappy payload h
    return (r, packets)

def parse (r : Reassembler) (payload : Bytes) : Exec (Reassembler × List Packet) :=
  match r.state with
  | .waitHeader =>
    if payload.length < hdrSize then .ok (r, [])
    else parseHeader snappy { r with state := .readHeader } payload
  | .readBody =>
    let r := { r with buffer := r.buffer ++ payload }
    if r.buffer.length ≥ r.dataSize then
      parseHeader snappy { r with state := .readHeader } r.buffer
    else .ok (r, [])
  | .readHeader => parseHeader snappy r payload

/-- `process` catches what `parse` throws; only an access out of bounds is not caught. -/
def process (r : Reassembler) (data : Bytes) : Exec (Reassembler × List Packet) :=
  match parse snappy r data with
  | .ok (r, result) => .ok (if result ≠ [] then reset else r, result)
  | .error (.exception _) => .ok (reset, [])
  | .error e => .error e

def machine : Machine Stop Reassembler Bytes Packet where
  step := process snappy

end Reassembler

/-- The key of a stream: `"%1%:%2%-->%3%:%4%"`. -/
def streamKey (pi : PacketInfo) : String :=
  pi.srcAddr ++ ":" ++ toString pi.srcPort ++ "-->" ++ pi.dstAddr ++ ":" ++ toString pi.dstPort

structure VoIP where
  base : TCPReassembler
  reasms : String → Option Reassembler

namespace VoIP

def fresh : VoIP := ⟨TCPReassembler.fresh, fun _ => none⟩

variable (snappy : Snappy)

/-- `reassembler(p)->process(p)` -/
def processPacket (reasms : String → Option Reassembler) (p : Packet) :
    Exec ((String → Option Reassembler) × List Packet) := do
  let key := streamKey p.info
  let (r, res) ← ((reasms key).getD Reassembler.fresh).process snappy p.data
  return (Function.update reasms key (some r), res)

/-- The loop over the packets of the base class. -/
def processAll (reasms : String → Option Reassembler) :
    List Packet → Exec ((String → Option Reassembler) × List Packet)
  | [] => return (reasms, [])
  | p :: ps => do
    let (reasms, res) ← processPacket snappy reasms p
    let (reasms, result) ← processAll reasms ps
    return (reasms, res ++ result)

def packets (v : VoIP) (call : Call) : Exec (VoIP × List Packet) := do
  let (base, ps) := v.base.packets call
  let (reasms, result) ← processAll snappy v.reasms ps
  return (⟨base, reasms⟩, result)

end VoIP

end NetComponents.Pcap
