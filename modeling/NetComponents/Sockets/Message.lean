import NetComponents.Library.Exec

/-!
# Outgoing messages

A message owns its data blocks and offers them to a socket as a buffer
sequence. New blocks are always appended to the owning vector, while the buffer
sequence is what `push_front` and `push_back` order.
-/

namespace NetComponents.Sockets

open Library

/-- `sockets::Message`. The buffers are views of exactly the owned blocks. -/
structure Message where
  data : List Bytes
  buffer : List Bytes
  addr : String
  port : ℕ
  views : buffer.Perm data

namespace Message

/-- The constructors from one block. The port has no initialiser, so its value
before `destination` is whatever the memory held. -/
def ofData (block : Bytes) (port : ℕ) : Message where
  data := [block]
  buffer := [block]
  addr := ""
  port := port
  views := List.Perm.refl _

def destination (m : Message) (addr : String) (port : ℕ) : Message :=
  { m with addr := addr, port := port }

def pushFront (m : Message) (block : Bytes) : Message where
  data := m.data ++ [block]
  buffer := block :: m.buffer
  addr := m.addr
  port := m.port
  views := (m.views.cons block).trans (List.perm_append_singleton block m.data).symm

def pushBack (m : Message) (block : Bytes) : Message where
  data := m.data ++ [block]
  buffer := m.buffer ++ [block]
  addr := m.addr
  port := m.port
  views := m.views.append_right [block]

def dataSize (m : Message) : ℕ := (m.data.map List.length).sum

/-- The bytes between `begin()` and `end()`, in the order a socket sends them. -/
def bytes (m : Message) : Bytes := m.buffer.flatten

theorem length_bytes (m : Message) : m.bytes.length = m.dataSize := by
  rw [bytes, List.length_flatten, dataSize]
  exact (m.views.map List.length).sum_eq

@[simp] theorem bytes_ofData (block : Bytes) (port : ℕ) : (ofData block port).bytes = block := by
  simp [bytes, ofData]

@[simp] theorem bytes_pushFront (m : Message) (block : Bytes) :
    (m.pushFront block).bytes = block ++ m.bytes := rfl

@[simp] theorem bytes_pushBack (m : Message) (block : Bytes) :
    (m.pushBack block).bytes = m.bytes ++ block := by
  simp [bytes, pushBack]

end Message
end NetComponents.Sockets
