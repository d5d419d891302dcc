import NetComponents.Sockets.Message

/-!
# SCGI framing

Every payload travels behind an eight-byte header, two 32-bit integers in the
byte order of a little-endian host: a marker and the payload size.
-/

namespace NetComponents.Scgi

open Library

/-- `Message::Header`. -/
structure Header where
  marker : UInt32
  size : UInt32
  deriving DecidableEq, Repr

namespace Header

def markerValue : UInt32 := 0xFB

def maxMsgSize : UInt32 := 1 * 1024 * 1024

/-- `sizeof(Header)` -/
def bytesize : ℕ := 8

/-- The header of a payload of `sz` bytes; the size is cut to 32 bits. -/
def ofSize (sz : ℕ) : Header := ⟨markerValue, UInt32.ofNat sz⟩

def valid (h : Header) : Bool := h.marker == markerValue

def overflow (h : Header) : Bool := h.size > maxMsgSize

/-- The header as it lies in memory. -/
def bytes (h : Header) : Bytes := le 4 h.marker.toNat ++ le 4 h.size.toNat

def ofBytes (bs : Bytes) : Header :=
  ⟨UInt32.ofNat (readLE (slice bs 0 4)), UInt32.ofNat (readLE (slice bs 4 4))⟩

/-- Store one byte of the header through a byte pointer. -/
def setByte (h : Header) (k : ℕ) (b : UInt8) : Header := ofBytes (h.bytes.set k b)

theorem overflow_iff (h : Header) : h.overflow = true ↔ 1024 * 1024 < h.size.toNat := by
  simp [overflow, maxMsgSize, UInt32.lt_iff_toNat_lt]

theorem toNat_size_eq_zero_iff (h : Header) : h.size.toNat = 0 ↔ h.size = 0 := by
  simp [← UInt32.toNat_inj]

@[simp] theorem length_bytes (h : Header) : h.bytes.length = 8 := by simp [bytes]

theorem bytes_ofBytes {bs : Bytes} (h : bs.length = 8) : (ofBytes bs).bytes = bs := by
  have h₁ : (slice bs 0 4).length = 4 := length_slice (by omega)
  have h₂ : (slice bs 4 4).length = 4 := length_slice (by omega)
  have hlt : ∀ x : Bytes, x.length = 4 → le 4 (UInt32.ofNat (readLE x)).toNat = x := by
    intro x hx
    have hr : readLE x < 2 ^ 32 := by simpa [hx] using readLE_lt x
    rw [UInt32.toNat_ofNat_of_lt' hr]
    simpa [hx] using le_readLE x
  rw [bytes, ofBytes, hlt _ h₁, hlt _ h₂, slice, slice, List.drop_zero,
    List.take_of_length_le (l := bs.drop 4) (by simp [h]), List.take_append_drop]

theorem bytes_setByte (h : Header) (k : ℕ) (b : UInt8) :
    (h.setByte k b).bytes = h.bytes.set k b :=
  bytes_ofBytes (by simp)

theorem take_bytes_setByte (h : Header) {k : ℕ} (b : UInt8) (hk : k < 8) :
    (h.setByte k b).bytes.take (k + 1) = h.bytes.take k ++ [b] := by
  have hk' : k < (h.bytes.set k b).length := by simpa using hk
  rw [bytes_setByte, List.take_succ_eq_append_getElem hk', List.getElem_set_self,
    List.take_set_of_le (le_refl k)]

theorem readLE_marker (h : Header) (rest : Bytes) :
    readLE (slice (h.bytes ++ rest) 0 4) = h.marker.toNat := by
  have hb : slice (h.bytes ++ rest) 0 4 = le 4 h.marker.toNat := by
    simp [bytes, slice]
  rw [hb, readLE_le_of_lt (by simpa using h.marker.toNat_lt)]

theorem readLE_size (h : Header) (rest : Bytes) :
    readLE (slice (h.bytes ++ rest) 4 4) = h.size.toNat := by
  have hb : slice (h.bytes ++ rest) 4 4 = le 4 h.size.toNat := by
    simp [bytes, slice]
  rw [hb, readLE_le_of_lt (by simpa using h.size.toNat_lt)]

end Header

/-- `scgi::Message`: the payload with its header pushed in front. -/
def message (payload : Bytes) (port : ℕ) : Sockets.Message :=
  (Sockets.Message.ofData payload port).pushFront (Header.ofSize payload.length).bytes

theorem message_bytes (payload : Bytes) (port : ℕ) :
    (message payload port).bytes = (Header.ofSize payload.length).bytes ++ payload := by
  simp [message]

end NetComponents.Scgi
