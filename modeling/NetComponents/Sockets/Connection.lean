import NetComponents.Library.Machine
import NetComponents.Sockets.Message

/-!
# The write queue of a connection

`BaseConnection::write(msg)` posts a handler to the strand; the handler queues
the message and starts a send unless one is under way, which it reads off the
length of the queue. How a send goes on is decided outside: it may have been
started (its completion handler runs later on the strand), it may have called
the completion handler before returning, or it may have thrown. A run is a
sequence of strand handlers, each of which runs to its end before the next.
-/

namespace NetComponents.Sockets

open Library

/-- How a call of the virtual `send` ends. -/
inductive SendResult where
  | started
  | completed (nwritten : ℕ)
  | threw
  deriving DecidableEq, Repr

/-- The transport under a connection: how its `k`-th send call ends. -/
abbrev Transport (M : Type) := ℕ → M → SendResult

/-- What a strand handler does, in order. -/
inductive Action (M : Type) where
  | push (msg : M)
  | send (msg : M)
  | threw (msg : M)
  | handler (msg : M) (error : Bool) (nwritten : ℕ)
  | pop
  deriving DecidableEq, Repr

/-- A strand handler: the lambda posted by `write(msg)`, or the completion
handler of a started send. -/
inductive Handler (M : Type) where
  | posted (msg : M)
  | completed (error : Bool) (nwritten : ℕ)
  deriving DecidableEq, Repr

/-- Why a handler has no successor state: there is no started send it could
belong to, or it used an empty queue. -/
inductive Fault where
  | notStarted
  | frontOfEmpty
  | popOfEmpty
  deriving DecidableEq, Repr

/-- The queue, the started sends whose completion handler has not run, and the
number of send calls so far. -/
structure BaseConnection (M : Type) where
  queue : List M
  awaiting : List M
  sends : ℕ
  deriving DecidableEq, Repr

namespace BaseConnection

variable {M : Type} (transport : Transport M)

def fresh : BaseConnection M := ⟨[], [], 0⟩

mutual

/-- `write()`: send the message at the front. -/
def write (c : BaseConnection M) : Except Fault (BaseConnection M × List (Action M)) :=
  match c.queue with
  | [] => .error .frontOfEmpty
  | msg :: _ =>
    let c' := { c with sends := c.sends + 1 }
    match transport c.sends msg with
    | .started => .ok ({ c' with awaiting := c.awaiting ++ [msg] }, [.send msg])
    | .threw => .ok (c', [.send msg, .threw msg])
    | .completed nwritten => (handler c' msg false nwritten).map fun r => (r.1, .send msg :: r.2)
termination_by 2 * c.queue.length + 1

/-- The completion handler that `write()` passes to `send`. -/
def handler (c : BaseConnection M) (msg : M) (error : Bool) (nwritten : ℕ) :
    Except Fault (BaseConnection M × List (Action M)) :=
  if error then .ok (c, [.handler msg error nwritten])
  else
    match _h : c.queue with
    | [] => .error .popOfEmpty
    | _ :: rest =>
      if rest = [] then .ok ({ c with queue := rest }, [.handler msg error nwritten, .pop])
      else (write { c with queue := rest }).map fun r =>
        (r.1, .handler msg error nwritten :: .pop :: r.2)
termination_by 2 * c.queue.length
decreasing_by simp only [_h, List.length_cons]; omega

end

/-- One handler on the strand. -/
def step (c : BaseConnection M) : Handler M → Except Fault (BaseConnection M × List (Action M))
  | .posted msg =>
    let c' := { c with queue := c.queue ++ [msg] }
    if c'.queue.length > 1 then .ok (c', [.push msg])
    else (write transport c').map fun r => (r.1, .push msg :: r.2)
  | .completed error nwritten =>
    match c.awaiting with
    | [] => .error .notStarted
    | msg :: others => handler transport { c with awaiting := others } msg error nwritten

def machine : Machine Fault (BaseConnection M) (Handler M) (Action M) where
  step := step transport

end BaseConnection

/-- `tcp::Connection::send` -/
def tcpSend : Transport Message := fun _ _ => .started

/-- `udp::Connection::send`, where `fromString` is `ip::address::from_string`. -/
def udpSend {α : Type} (fromString : String → Option α) : Transport Message := fun _ msg =>
  if msg.addr = "" ∧ msg.port = 0 then .started
  else if (fromString msg.addr).isNone then .threw
  else .started

/-- `web::Connection::send`: the handler is called with the bytes of all buffers. -/
def webSend : Transport Message := fun _ msg => .completed (msg.buffer.map List.length).sum

/-- The messages in the order their lambdas ran. -/
def posts {M : Type} (handlers : List (Handler M)) : List M :=
  handlers.filterMap fun
    | .posted msg => some msg
    | .completed _ _ => none

/-- The messages passed to `send`, in order. -/
def sendsOf {M : Type} (log : List (Action M)) : List M :=
  log.filterMap fun
    | .send msg => some msg
    | _ => none

/-- The successful completions, in order: the message and the bytes reported. -/
def completions {M : Type} (log : List (Action M)) : List (M × ℕ) :=
  log.filterMap fun
    | .handler msg false nwritten => some (msg, nwritten)
    | _ => none

/-- The number of sends that await completion after an action. -/
def awaitingAfter {M : Type} (n : ℕ) : Action M → ℕ
  | .send _ => n + 1
  | .threw _ => n - 1
  | .handler _ _ _ => n - 1
  | _ => n

/-- The largest number of sends awaiting completion at any time of a log. -/
def peak {M : Type} (n : ℕ) : List (Action M) → ℕ
  | [] => n
  | a :: log => max n (peak (awaitingAfter n a) log)

/-- A completion with an error, or a send that threw. -/
def Action.Failure {M : Type} : Action M → Prop
  | .threw _ => True
  | .handler _ error _ => error = true
  | _ => False

end NetComponents.Sockets
