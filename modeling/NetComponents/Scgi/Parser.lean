import NetComponents.Library.Machine
import NetComponents.Scgi.Message

/-!
# The SCGI parser

`Parser.process` is fed one chunk of the stream at a time. A pass through its
loop either stores one header byte or, once the header is complete and a
further byte is there, copies as much of the body as the chunk holds. The whole
decoding state lives in the parser, so that the next chunk continues anywhere:
inside the header, at its end, or inside a body that is kept or skipped.
-/

namespace NetComponents.Scgi

open Library

/-- How `Dispatcher::onMessage` ends. -/
inductive Reply where
  | returned (ret : Bool)
  | threw
  deriving DecidableEq, Repr

/-- A dispatcher, whose replies may depend on everything it has seen. -/
structure Dispatcher (δ : Type) where
  onMessage : δ → Bytes → Reply × δ

/-- What the parser does to the outside. -/
inductive Event where
  | onMessage (payload : Bytes)
  | close
  deriving DecidableEq, Repr

structure Parser where
  msgbuf : Bytes
  header : Header
  failed : Bool
  skipmsg : Bool
  msgsize : ℕ
  nread : ℕ
  deriving DecidableEq, Repr

def Parser.fresh : Parser := ⟨[], Header.ofSize 0, false, false, 0, 0⟩

/-- `vector::resize`: cut, or fill with zeros. -/
def resize (bs : Bytes) (n : ℕ) : Bytes := bs.take n ++ List.replicate (n - bs.length) 0

@[simp] theorem length_resize (bs : Bytes) (n : ℕ) : (resize bs n).length = n := by
  simp only [resize, List.length_append, List.length_take, List.length_replicate]
  omega

/-- The variables of one call of `process`, with the dispatcher and what was
done so far. -/
structure Loop (δ : Type) where
  parser : Parser
  dispatcher : δ
  i : ℕ
  events : List Event

variable {δ : Type} (d : Dispatcher δ)

namespace Loop

/-- The failure exits of the loop: close the connection and refuse any more. -/
def fail (l : Loop δ) : Loop δ :=
  { l with parser := { l.parser with failed := true }, events := l.events ++ [.close] }

/-- The body is complete: dispatch it, unless it was skipped. The second
component is false where the source returns. -/
def finish (l : Loop δ) (needs : ℕ) : Loop δ × Bool :=
  let p := l.parser
  let next (p : Parser) (l : Loop δ) : Loop δ × Bool :=
    ({ l with parser := { p with msgsize := 0, nread := 0 }, i := l.i + needs }, true)
  if p.skipmsg then next { p with skipmsg := false } l
  else
    let reply := d.onMessage l.dispatcher p.msgbuf
    let l' : Loop δ :=
      { parser := { p with msgbuf := [] }
        dispatcher := reply.2
        i := l.i
        events := l.events ++ [.onMessage p.msgbuf] }
    if reply.1 = .returned true then next l'.parser l' else (l'.fail, false)

theorem finish_skipped {l : Loop δ} (n : ℕ) (h : l.parser.skipmsg = true) :
    finish d l n =
      ({ l with
          parser := { l.parser with skipmsg := false, msgsize := 0, nread := 0 }
          i := l.i + n }, true) := by
  simp [finish, h]

theorem finish_accepted {l : Loop δ} (n : ℕ) (h : l.parser.skipmsg = false)
    (hret : (d.onMessage l.dispatcher l.parser.msgbuf).1 = .returned true) :
    finish d l n =
      ({ parser := { l.parser with msgbuf := [], msgsize := 0, nread := 0 }
         dispatcher := (d.onMessage l.dispatcher l.parser.msgbuf).2
         i := l.i + n
         events := l.events ++ [.onMessage l.parser.msgbuf] }, true) := by
  simp [finish, h, hret]

theorem finish_refused {l : Loop δ} (n : ℕ) (h : l.parser.skipmsg = false)
    (hret : (d.onMessage l.dispatcher l.parser.msgbuf).1 ≠ .returned true) :
    finish d l n =
      ({ parser := { l.parser with msgbuf := [], failed := true }
         dispatcher := (d.onMessage l.dispatcher l.parser.msgbuf).2
         i := l.i
         events := l.events ++ [.onMessage l.parser.msgbuf, .close] }, false) := by
  simp [finish, h, hret, fail]

/-- How many bytes of the chunk belong to the body. -/
def needs (size : ℕ) (l : Loop δ) : ℕ :=
  let rest := subSize l.parser.header.size.toNat l.parser.msgsize
  if rest > size - l.i then size - l.i else rest

/-- `std::copy` from the chunk into the message buffer, unless the body is skipped. -/
def copyBody (buf : Bytes) (n : ℕ) (l : Loop δ) : Exec Bytes :=
  if l.parser.skipmsg then .ok l.parser.msgbuf
  else (read buf l.i n).bind (overwrite l.parser.msgbuf l.parser.msgsize)

/-- Take what the chunk holds of the body. -/
def consume (buf : Bytes) (size : ℕ) (l : Loop δ) : Exec (Loop δ × Bool) :=
  let n := l.needs size
  (l.copyBody buf n).map fun msgbuf =>
    let p : Parser := { l.parser with msgbuf := msgbuf, msgsize := l.parser.msgsize + n }
    if p.msgsize = p.header.size.toNat then finish d { l with parser := p } n
    else ({ l with parser := { p with nread := p.nread + n }, i := l.i + n }, true)

theorem consume_eq {buf : Bytes} {size : ℕ} {l : Loop δ} {msgbuf : Bytes}
    (h : l.copyBody buf (l.needs size) = .ok msgbuf) :
    consume d buf size l = .ok (
      if l.parser.msgsize + l.needs size = l.parser.header.size.toNat then
        finish d { l with parser := { l.parser with
          msgbuf := msgbuf, msgsize := l.parser.msgsize + l.needs size } } (l.needs size)
      else
        ({ l with
            parser := { l.parser with
              msgbuf := msgbuf
              msgsize := l.parser.msgsize + l.needs size
              nread := l.parser.nread + l.needs size }
            i := l.i + l.needs size }, true)) := by
  simp only [consume, h, Except.map]

/-- One pass through the loop body of `Parser::process`. -/
def iterate (buf : Bytes) (size : ℕ) (l : Loop δ) : Exec (Loop δ × Bool) :=
  let p := l.parser
  if p.nread < Header.bytesize then
    (read buf l.i 1).map fun b =>
      let header := p.header.setByte p.nread (b.headD 0)
      ({ l with parser := { p with header := header, nread := p.nread + 1 }, i := l.i + 1 }, true)
  else if p.nread = Header.bytesize then
    if !p.header.valid then .ok (l.fail, false)
    else if p.header.overflow then
      consume d buf size { l with parser := { p with skipmsg := true } }
    else
      let p' := { p with
        skipmsg := false, msgsize := 0, msgbuf := resize p.msgbuf p.header.size.toNat }
      if p.header.size = 0 then .ok ({ l with parser := { p' with nread := 0 } }, true)
      else consume d buf size { l with parser := p' }
  else consume d buf size l

/-- `while (i < size)`, within a budget of passes. -/
def loop (buf : Bytes) (size : ℕ) : ℕ → Loop δ → Exec (Loop δ × Bool)
  | 0, _ => .error .outOfFuel
  | fuel + 1, l =>
    if l.i < size then
      match iterate d buf size l with
      | .error e => .error e
      | .ok (l', true) => loop buf size fuel l'
      | .ok (l', false) => .ok (l', false)
    else .ok (l, true)

end Loop

/-- A read buffer and how many of its bytes the read filled. -/
structure Chunk where
  buf : Bytes
  size : ℕ
  size_le : size ≤ buf.length

def Chunk.bytes (c : Chunk) : Bytes := c.buf.take c.size

/-- A chunk that fills its buffer. -/
def Chunk.full (bs : Bytes) : Chunk := ⟨bs, bs.length, le_rfl⟩

/-- `Parser::process`. Two passes for each byte of the chunk are enough. -/
def Parser.process (p : Parser) (t : δ) (c : Chunk) : Exec (Loop δ × Bool) :=
  if p.failed then .ok (⟨p, t, 0, []⟩, false)
  else Loop.loop d c.buf c.size (2 * c.size + 2) ⟨p, t, 0, []⟩

/-- A parser and its dispatcher, fed chunk after chunk. -/
def Parser.machine : Machine Stop (Parser × δ) Chunk Event where
  step s c := (s.1.process d s.2 c).map fun r => ((r.1.parser, r.1.dispatcher), r.1.events)

end NetComponents.Scgi
