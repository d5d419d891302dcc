import NetComponents.Library.Machine

/-!
# Accepting connections

`tcp::Server` and `web::Server` start one accept operation for each call of
`accept`. The operation stays pending until it completes with a socket, with an
error, or, when the listener is cancelled, as aborted; its handler is then queued
and runs the callback that `accept` was given.
-/

namespace NetComponents.Sockets

/-- How an accept operation completes. -/
inductive Accepted (S : Type) where
  | socket (s : S)
  | aborted
  | failed
  deriving DecidableEq, Repr

/-- The completion handler that `accept` starts its operation with. The callback runs on a
socket only; an exception that it throws is logged, and so is an error. -/
def Accepted.handle {S σ : Type} (acceptcb : S → σ → Except String Bool × σ) :
    Accepted S → σ → σ
  | .socket s, owner => (acceptcb s owner).2
  | .aborted, owner => owner
  | .failed, owner => owner

/-- `tcp::Server` or `web::Server` -/
inductive Protocol where
  | tcp
  | websocket
  deriving DecidableEq, Repr

/-- A listening socket: whether it is open, and its accept operations, which are pending,
completed with their handler queued, or aborted with their handler queued. -/
structure Listener where
  protocol : Protocol
  listening : Bool
  pending : ℕ
  completed : ℕ
  aborted : ℕ
  deriving DecidableEq, Repr

namespace Listener

def fresh (protocol : Protocol) : Listener := ⟨protocol, true, 0, 0, 0⟩

/-- The accept operations whose handler has not run. -/
def operations (l : Listener) : ℕ := l.pending + l.completed + l.aborted

/-- `accept`: start an operation. `web::Server::accept` throws when no connection object can be
had (`refused`), and when the listening socket is closed. -/
def accept (l : Listener) (refused : Bool) : Option Listener :=
  match l.protocol with
  | .tcp => some { l with pending := l.pending + 1 }
  | .websocket =>
    if l.listening && !refused then some { l with pending := l.pending + 1 } else none

/-- `cancel` aborts what is pending. `tcp::Server` leaves the socket open, `web::Server` closes
it, and throws where it is closed already: then nothing changes. -/
def cancel (l : Listener) : Listener :=
  match l.protocol with
  | .tcp => { l with pending := 0, aborted := l.aborted + l.pending }
  | .websocket =>
    if l.listening then
      { l with listening := false, pending := 0, aborted := l.aborted + l.pending }
    else l

/-- A pending operation completes. -/
def complete (l : Listener) : Option Listener :=
  if l.pending = 0 then none
  else some { l with pending := l.pending - 1, completed := l.completed + 1 }

/-- The handler of an operation with this result is taken from the queue. -/
def deliver {S : Type} (l : Listener) : Accepted S → Option Listener
  | .aborted => if l.aborted = 0 then none else some { l with aborted := l.aborted - 1 }
  | _ => if l.completed = 0 then none else some { l with completed := l.completed - 1 }

@[simp] theorem operations_cancel (l : Listener) : l.cancel.operations = l.operations := by
  unfold cancel
  cases l.protocol with
  | tcp => simp only [operations]; omega
  | websocket =>
    split_ifs
    · simp only [operations]; omega
    · rfl

theorem operations_of_complete {l l' : Listener} (h : l.complete = some l') :
    l.operations ≠ 0 := by
  unfold complete at h
  split_ifs at h with hpending
  simp only [operations]
  omega

theorem operations_of_deliver {S : Type} {l l' : Listener} {r : Accepted S}
    (h : l.deliver r = some l') : l.operations ≠ 0 := by
  unfold operations
  cases r <;> simp only [deliver] at h <;> split_ifs at h with hqueued <;> omega

/-- The accept operations of a listener of `tcp::Server` are `n` pending ones. -/
structure Awaits (n : ℕ) (l : Listener) : Prop where
  tcp : l.protocol = .tcp
  pending : l.pending = n
  completed : l.completed = 0
  aborted : l.aborted = 0

variable {l l₁ l₂ : Listener}

theorem Awaits.deliver {S : Type} {r : Accepted S} (h : l.Awaits 1)
    (hcomplete : l.complete = some l₁) (hdeliver : l₁.deliver r = some l₂) :
    r ≠ .aborted ∧ l₂.Awaits 0 := by
  unfold Listener.complete at hcomplete
  split_ifs at hcomplete
  cases hcomplete
  cases r with
  | aborted => simp [Listener.deliver, h.aborted] at hdeliver
  | socket s =>
    simp only [Listener.deliver, h.completed] at hdeliver
    cases hdeliver
    exact ⟨by simp, h.tcp, by simp [h.pending], rfl, h.aborted⟩
  | failed =>
    simp only [Listener.deliver, h.completed] at hdeliver
    cases hdeliver
    exact ⟨by simp, h.tcp, by simp [h.pending], rfl, h.aborted⟩

theorem Awaits.accept (h : l.Awaits 0) (refused : Bool) :
    ∃ l', l.accept refused = some l' ∧ l'.Awaits 1 := by
  refine ⟨{ l with pending := l.pending + 1 }, by simp [Listener.accept, h.tcp], ?_⟩
  exact ⟨h.tcp, by simp [h.pending], h.completed, h.aborted⟩

/-- There is nothing to abort. -/
theorem Awaits.cancel (h : l.Awaits 0) : l.cancel = l := by
  obtain ⟨protocol, listening, pending, completed, aborted⟩ := l
  obtain ⟨rfl, rfl, rfl, rfl⟩ := h
  rfl

end Listener

end NetComponents.Sockets
