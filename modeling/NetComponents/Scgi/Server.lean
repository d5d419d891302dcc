import NetComponents.Scgi.Pool
import NetComponents.Sockets.Listener

/-!
# The SCGI server

`scgi::Server` takes a connection from its pool for each socket it accepts, and then
accepts the next one.
-/

namespace NetComponents.Scgi

open Library Sockets

/-- An accepted socket: whether `remote_endpoint()` returns, and the id for its connection. -/
structure Socket where
  endpoint : Bool
  id : CID
  deriving DecidableEq, Repr

structure Server where
  pool : Pool
  listener : Listener
  deriving DecidableEq

namespace Server

/-- `accept()`: the listener is a `tcp::Server`, which refuses nothing. -/
def accept (s : Server) : Server :=
  match s.listener.accept false with
  | none => s
  | some l => { s with listener := l }

/-- The constructor accepts. -/
def fresh (maxSize : ℕ) : Server := accept ⟨.fresh maxSize, .fresh .tcp⟩

/-- The accept callback. The address of the peer is asked for in a debug message. A connection
that the pool gives is read by a parser; without one there is a warning. -/
def onAccept (debug : Bool) (socket : Socket) (s : Server) : Except String Bool × Server :=
  if debug && !socket.endpoint then (.error "remote_endpoint", s)
  else (.ok true, accept { s with pool := (s.pool.getConnection socket.id).2 })

/-- An accept completes and its handler runs, or a connection of the pool is destroyed. -/
inductive Event where
  | accepted (result : Accepted Socket)
  | freed (id : CID)
  deriving DecidableEq, Repr

/-- An accept that was not pending. -/
inductive Fault where
  | notPending
  deriving DecidableEq, Repr

def step (debug : Bool) (s : Server) : Event → Except Fault (Server × List Empty)
  | .accepted r =>
    match s.listener.complete.bind (·.deliver r) with
    | none => .error .notPending
    | some l => .ok (r.handle (onAccept debug) { s with listener := l }, [])
  | .freed id => .ok ({ s with pool := (s.pool.freeConnection id).2 }, [])

def machine (debug : Bool) : Machine Fault Server Event Empty where
  step := step debug

end Server

end NetComponents.Scgi
