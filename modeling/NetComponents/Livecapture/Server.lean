import NetComponents.Sockets.Listener

/-!
# Live capture servers

A `livecapture::Server` is kept alive by the handlers that are not run yet, and by
`Grabber::open` until it returns: the wait for the accept timer and the accept
operations of the listener each hold a reference. When the last one is dropped, the
destructor terminates the clients. Every event below is a step that runs to its end
on its own; what the operating system and the event loop decide is part of the event.
-/

namespace NetComponents.Livecapture

open Library Sockets

/-- The wait for the accept timer. Its handler is queued with success when the timer expires, and
with `operation_aborted` when the timer is destroyed before. -/
inductive Wait where
  | none
  | waiting
  | expired
  | aborted
  deriving DecidableEq, Repr

/-- How far `Grabber::open` is with a server that it has counted. -/
inductive Opening where
  | counted
  | connected
  | waiting
  | returning
  | returned
  deriving DecidableEq, Repr

/-- A `livecapture::Connection`: whether its `start()` returned, it has received a termination
signal, and it is destroyed. -/
structure Connection where
  started : Bool
  terminated : Bool
  destroyed : Bool
  deriving DecidableEq, Repr

/-- What becomes of the client of an accepted socket: the sniffer or the connection cannot be
created, `start()` throws (and the connection may be kept by the timer it has set), or it
returns. -/
inductive Attempt where
  | fails
  | throws (kept : Bool)
  | starts
  deriving DecidableEq, Repr

/-- What an accepted socket meets: whether `remote_endpoint()` returns, the grabber still exists,
what becomes of the client, and whether the next accept is refused. -/
structure Incoming where
  endpoint : Bool
  grabber : Bool
  attempt : Attempt
  refused : Bool
  deriving DecidableEq, Repr

/-- What is seen of a server: `start()` of a client returned, the accept timer has cancelled the
listener, the termination signal has reached the slot that `Grabber::open` connected. -/
inductive Output where
  | started
  | timeout
  | released
  deriving DecidableEq, Repr

/-- `livecapture::Server` with the `count_` of `ServerTCP` and `ServerWS`. `clients` are the
connections that were created, in order; `finish` is the one whose termination signal `finish_`
is connected to, and `counting` says whether the slot of `Grabber::open` is. -/
structure Server where
  opening : Opening
  tmrAccept : Bool
  wait : Wait
  listener : Listener
  count : ℕ
  clients : List Connection
  finish : Option ℕ
  termination : Bool
  counting : Bool
  destroyed : Bool
  deriving DecidableEq, Repr

inductive Event where
  | connect
  | wait (throws : Bool)
  | accept (refused : Bool)
  | return
  | expire
  | timer
  | complete
  | handled (result : Accepted Incoming)
  | terminated
  | gone (client : ℕ)
  deriving DecidableEq, Repr

/-- An event that cannot happen in this state. -/
inductive Fault where
  | disabled
  deriving DecidableEq, Repr

namespace Server

/-- The server that `ServerFactory::create` returns. -/
def fresh (protocol : Protocol) : Server :=
  ⟨.counted, true, .none, .fresh protocol, 0, [], none, true, false, false⟩

/-- `stopAcceptTimer()`: a handler that is queued already stays queued. -/
def stopAcceptTimer (s : Server) : Server :=
  { s with tmrAccept := false, wait := if s.wait = .waiting then .aborted else s.wait }

def cancel (s : Server) : Server := { s with listener := s.listener.cancel }

/-- `wait()` -/
def startWait (s : Server) : Server :=
  if s.tmrAccept then { s with wait := .waiting } else s

/-- `accept()`; `none` if it throws. -/
def accept (s : Server) (refused : Bool) : Option Server :=
  (s.listener.accept refused).map fun l => { s with listener := l }

/-- `connectOnFinish()` -/
def connectOnFinish (s : Server) (client : ℕ) : Server := { s with finish := some client }

/-- The destructor of a client: its termination signal reaches the slot of `finish_`, if that is
connected to it. -/
def clientGone (s : Server) (client : ℕ) : Server :=
  let s' := { s with
    clients := s.clients.modify client fun c => { c with destroyed := true } }
  if s.finish = some client then ({ s' with finish := none }.stopAcceptTimer).cancel else s'

/-- A new `Connection`, with `finish_` connected to its termination signal. -/
def addClient (s : Server) (started : Bool) : Server :=
  let client := Connection.mk started false false
  { s with clients := s.clients ++ [client] }.connectOnFinish s.clients.length

/-- The part of the accept callback that creates a client, when none has been started. -/
def connect (s : Server) : Attempt → Server × List Output
  | .fails => (s, [])
  | .throws kept =>
    let s' := s.addClient false
    (if kept then s' else s'.clientGone s.clients.length, [])
  | .starts => ({ (s.addClient true).stopAcceptTimer with count := s.count + 1 }, [.started])

/-- A client is created when none has been started and the grabber still exists. -/
def serve (s : Server) (r : Incoming) : Server × List Output :=
  if s.count = 0 ∧ r.grabber = true then s.connect r.attempt else (s, [])

/-- The accept callback of `ServerTCP` and `ServerWS`. The address of the peer is asked for in a
debug message, before anything else. The callback ends with the next accept, which may throw. -/
def onAccept (debug : Bool) (r : Incoming) (s : Server × List Output) :
    Except String Bool × (Server × List Output) :=
  if debug && !r.endpoint then (.error "remote_endpoint", s)
  else
    let result := s.1.count = 0 ∧ r.grabber = true ∧ r.attempt = .starts
    let t := s.1.serve r
    match t.1.accept r.refused with
    | none => (.error "failed to create websocket connection", (t.1, s.2 ++ t.2))
    | some u => (.ok result, (u, s.2 ++ t.2))

/-- Something still holds a reference to the server. -/
def Held (s : Server) : Prop :=
  s.opening ≠ .returned ∨ s.wait ≠ .none ∨ s.listener.operations ≠ 0

instance (s : Server) : Decidable s.Held := inferInstanceAs (Decidable (_ ∨ _ ∨ _))

/-- `~Server()`: the termination signal reaches the clients and `Grabber::open`'s slot. -/
def destroy (s : Server) : Server × List Output :=
  ({ s with
      finish := none
      termination := false
      clients := s.clients.map fun c => { c with terminated := true }
      destroyed := true },
    if s.counting then [.released] else [])

/-- The handler has run: the server is destroyed if that dropped the last reference. -/
def settle (s : Server) : Server × List Output :=
  if s.destroyed = false ∧ ¬s.Held then s.destroy else (s, [])

/-- One event, before references are dropped; `none` where it cannot happen. -/
def fire (debug : Bool) (s : Server) : Event → Option (Server × List Output)
  | .connect =>
    if s.opening = .counted then some ({ s with opening := .connected, counting := true }, [])
    else none
  | .wait throws =>
    if s.opening = .connected then
      -- an exception ends `start()` before it accepts
      if throws then some ({ s with opening := .returning }, [])
      else some ({ s.startWait with opening := .waiting }, [])
    else none
  | .accept refused =>
    if s.opening = .waiting then
      some ({ (s.accept refused).getD s with opening := .returning }, [])
    else none
  | .return =>
    if s.opening = .returning then some ({ s with opening := .returned }, []) else none
  | .expire => if s.wait = .waiting then some ({ s with wait := .expired }, []) else none
  | .timer =>
    match s.wait with
    | .expired => some (({ s with wait := .none }.stopAcceptTimer).cancel, [.timeout])
    | .aborted => some ({ s with wait := .none }, [])
    | _ => none
  | .complete => s.listener.complete.map fun l => ({ s with listener := l }, [])
  | .handled r =>
    (s.listener.deliver r).map fun l => r.handle (onAccept debug) ({ s with listener := l }, [])
  | .terminated =>
    some (if s.termination then ({ s with termination := false }.stopAcceptTimer).cancel else s,
      [])
  | .gone client =>
    if (s.clients[client]?.map Connection.destroyed) = some false then
      some (s.clientGone client, [])
    else none

/-- What the callbacks leave alone: how far `Grabber::open` is, and whether the server is alive. -/
structure Frame (s t : Server) : Prop where
  opening : t.opening = s.opening
  counting : t.counting = s.counting
  destroyed : t.destroyed = s.destroyed

section Fields

variable (s : Server) (client : ℕ) (started : Bool) (attempt : Attempt)

theorem clientGone_cases :
    s.clientGone client = { s with
      clients := s.clients.modify client fun c => { c with destroyed := true } } ∨
    s.clientGone client = ({ s with
      clients := s.clients.modify client fun c => { c with destroyed := true }
      finish := none }.stopAcceptTimer).cancel := by
  unfold clientGone
  split_ifs
  · exact .inr rfl
  · exact .inl rfl

theorem frame_clientGone : s.Frame (s.clientGone client) := by
  rcases s.clientGone_cases client with h | h
  · rw [h]
    exact ⟨rfl, rfl, rfl⟩
  · rw [h]
    exact ⟨rfl, rfl, rfl⟩

@[simp] theorem count_clientGone : (s.clientGone client).count = s.count := by
  rcases s.clientGone_cases client with h | h
  · rw [h]
  · rw [h]
    rfl

theorem startWait_eq : s.startWait = { s with wait := s.startWait.wait } := by
  unfold startWait
  split_ifs <;> rfl

@[simp] theorem operations_clientGone :
    (s.clientGone client).listener.operations = s.listener.operations := by
  rcases s.clientGone_cases client with h | h
  · rw [h]
  · rw [h]
    exact s.listener.operations_cancel

theorem wait_clientGone :
    (s.clientGone client).wait = s.wait ∨ (s.clientGone client).wait = s.stopAcceptTimer.wait := by
  rcases s.clientGone_cases client with h | h
  · exact .inl (by rw [h])
  · exact .inr (by rw [h]; rfl)

theorem accept_cases {t : Server} {refused : Bool} (h : s.accept refused = some t) :
    ∃ l, s.listener.accept refused = some l ∧ t = { s with listener := l } := by
  obtain ⟨l, hl, rfl⟩ := Option.map_eq_some_iff.mp h
  exact ⟨l, hl, rfl⟩

/-- The accept callback may create a client; then it changes the listener at most. -/
theorem onAccept_cases (debug : Bool) (r : Incoming) (out : List Output) :
    (onAccept debug r (s, out)).2 = (s, out) ∨
    ∃ l, (onAccept debug r (s, out)).2 =
      ({ (s.serve r).1 with listener := l }, out ++ (s.serve r).2) := by
  unfold onAccept
  split_ifs
  · exact .inl rfl
  · right
    cases haccept : (s.serve r).1.accept r.refused with
    | none => exact ⟨(s.serve r).1.listener, by simp only [haccept]⟩
    | some u =>
      obtain ⟨l, -, rfl⟩ := accept_cases _ haccept
      exact ⟨l, by simp only [haccept]⟩

theorem frame_connect : s.Frame (s.connect attempt).1 := by
  cases attempt with
  | fails => exact ⟨rfl, rfl, rfl⟩
  | throws kept =>
    cases kept with
    | true => exact ⟨rfl, rfl, rfl⟩
    | false =>
      -- the client is added and destroyed again
      obtain ⟨hopening, hcounting, hdestroyed⟩ :=
        (s.addClient false).frame_clientGone s.clients.length
      exact ⟨hopening, hcounting, hdestroyed⟩
  | starts => exact ⟨rfl, rfl, rfl⟩

theorem wait_connect : (s.connect attempt).1.wait = s.wait ∨
    (s.connect attempt).1.wait = s.stopAcceptTimer.wait := by
  cases attempt with
  | fails => exact .inl rfl
  | throws kept =>
    cases kept with
    | true => exact .inl rfl
    | false => exact (s.addClient false).wait_clientGone s.clients.length
  | starts => exact .inr rfl

variable (r : Incoming)

theorem frame_serve : s.Frame (s.serve r).1 := by
  unfold serve
  split_ifs
  · exact s.frame_connect r.attempt
  · exact ⟨rfl, rfl, rfl⟩

theorem wait_serve :
    (s.serve r).1.wait = s.wait ∨ (s.serve r).1.wait = s.stopAcceptTimer.wait := by
  unfold serve
  split_ifs
  · exact s.wait_connect r.attempt
  · exact .inl rfl

/-- A client is started only when none was before, and then the accept timer is stopped. -/
theorem serve_cases : (s.serve r).2 = [] ∧ (s.serve r).1.count = s.count ∨
    s.count = 0 ∧ (s.serve r).2 = [.started] ∧ (s.serve r).1.count = 1 ∧
      (s.serve r).1.wait = s.stopAcceptTimer.wait := by
  unfold serve
  split_ifs with h
  · cases r.attempt with
    | fails => exact .inl ⟨rfl, rfl⟩
    | throws kept => cases kept <;> exact .inl ⟨rfl, by simp [connect, addClient, connectOnFinish]⟩
    | starts => exact .inr ⟨h.1, rfl, by simp [connect, addClient, connectOnFinish, h.1], rfl⟩
  · exact .inl ⟨rfl, rfl⟩

end Fields

def step (debug : Bool) (s : Server) (e : Event) : Except Fault (Server × List Output) :=
  match s.fire debug e with
  | none => .error .disabled
  | some (s', out) => .ok (s'.settle.1, out ++ s'.settle.2)

def machine (debug : Bool) : Machine Fault Server Event Output where
  step := step debug

/-- What an event does to a server, before references are dropped. The listener's part is left
open, but for what it takes to have an accept operation handled. -/
inductive Effect (s : Server) : Server → List Output → Prop where
  | connects (h : s.opening = .counted) :
      Effect s { s with opening := .connected, counting := true } []
  | throws (h : s.opening = .connected) : Effect s { s with opening := .returning } []
  | waits (h : s.opening = .connected) : Effect s { s.startWait with opening := .waiting } []
  | listens (h : s.opening = .waiting) (l : Listener) :
      Effect s { s with opening := .returning, listener := l } []
  | returns (h : s.opening = .returning) : Effect s { s with opening := .returned } []
  | expires (h : s.wait = .waiting) : Effect s { s with wait := .expired } []
  | timeout (h : s.wait = .expired) :
      Effect s ({ s with wait := .none }.stopAcceptTimer).cancel [.timeout]
  | aborts (h : s.wait = .aborted) : Effect s { s with wait := .none } []
  | operates (h : s.listener.operations ≠ 0) (l : Listener) : Effect s { s with listener := l } []
  | serves (h : s.listener.operations ≠ 0) (r : Incoming) (l l' : Listener) :
      Effect s { ({ s with listener := l }.serve r).1 with listener := l' }
        ({ s with listener := l }.serve r).2
  | terminates : Effect s ({ s with termination := false }.stopAcceptTimer).cancel []
  | ignores : Effect s s []
  | gone (client : ℕ) : Effect s (s.clientGone client) []

theorem fire_effect {debug : Bool} {s s' : Server} {e : Event} {out : List Output}
    (h : s.fire debug e = some (s', out)) : s.Effect s' out := by
  cases e with
  | connect =>
    obtain ⟨hopening, rfl, rfl⟩ : s.opening = .counted ∧ _ ∧ _ := by simpa [fire] using h
    exact .connects hopening
  | wait throws =>
    cases throws with
    | true =>
      obtain ⟨hopening, rfl, rfl⟩ : s.opening = .connected ∧ _ ∧ _ := by simpa [fire] using h
      exact .throws hopening
    | false =>
      obtain ⟨hopening, rfl, rfl⟩ : s.opening = .connected ∧ _ ∧ _ := by simpa [fire] using h
      exact .waits hopening
  | accept refused =>
    obtain ⟨hopening, rfl, rfl⟩ : s.opening = .waiting ∧ _ ∧ _ := by simpa [fire] using h
    cases haccept : s.accept refused with
    | none => exact .listens hopening s.listener
    | some t =>
      obtain ⟨l, -, rfl⟩ := s.accept_cases haccept
      exact .listens hopening l
  | «return» =>
    obtain ⟨hopening, rfl, rfl⟩ : s.opening = .returning ∧ _ ∧ _ := by simpa [fire] using h
    exact .returns hopening
  | expire =>
    obtain ⟨hwait, rfl, rfl⟩ : s.wait = .waiting ∧ _ ∧ _ := by simpa [fire] using h
    exact .expires hwait
  | timer =>
    cases hwait : s.wait with
    | none => simp [fire, hwait] at h
    | waiting => simp [fire, hwait] at h
    | expired =>
      simp only [fire, hwait, Option.some.injEq, Prod.mk.injEq] at h
      obtain ⟨rfl, rfl⟩ := h
      exact .timeout hwait
    | aborted =>
      simp only [fire, hwait, Option.some.injEq, Prod.mk.injEq] at h
      obtain ⟨rfl, rfl⟩ := h
      exact .aborts hwait
  | complete =>
    obtain ⟨l, hl, hs⟩ := Option.map_eq_some_iff.mp h
    cases hs
    exact .operates (Listener.operations_of_complete hl) l
  | handled r =>
    obtain ⟨l, hl, hs⟩ := Option.map_eq_some_iff.mp h
    have hoperations := Listener.operations_of_deliver hl
    cases r with
    | aborted =>
      cases hs
      exact .operates hoperations l
    | failed =>
      cases hs
      exact .operates hoperations l
    | socket r =>
      rcases onAccept_cases { s with listener := l } debug r [] with hno | ⟨l', hserve⟩
      · cases hno.symm.trans hs
        exact .operates hoperations l
      · cases hserve.symm.trans hs
        exact .serves hoperations r l l'
  | terminated =>
    simp only [fire, Option.some.injEq, Prod.mk.injEq] at h
    obtain ⟨rfl, rfl⟩ := h
    split_ifs
    · exact .terminates
    · exact .ignores
  | gone client =>
    obtain ⟨-, rfl, rfl⟩ :
        (s.clients[client]?.map Connection.destroyed) = some false ∧ _ ∧ _ := by
      simpa [fire] using h
    exact .gone client

/-- A server is settled by destroying it or by leaving it as it is. -/
theorem settle_cases (s : Server) : s.settle = (s, []) ∨
    s.destroyed = false ∧ ¬s.Held ∧ s.settle = s.destroy := by
  unfold settle
  split_ifs with h
  · exact .inr ⟨h.1, h.2, rfl⟩
  · exact .inl rfl

theorem step_cases {debug : Bool} {s t : Server} {e : Event} {out : List Output}
    (h : s.step debug e = .ok (t, out)) :
    ∃ s' o, s.fire debug e = some (s', o) ∧ t = s'.settle.1 ∧ out = o ++ s'.settle.2 := by
  unfold step at h
  cases hfire : s.fire debug e with
  | none => simp [hfire] at h
  | some r =>
    simp only [hfire, Except.ok.injEq, Prod.mk.injEq] at h
    exact ⟨r.1, r.2, rfl, h.1.symm, h.2.symm⟩

/-- What the drop of the last reference leaves alone. -/
structure Settled (s t : Server) : Prop where
  opening : t.opening = s.opening
  wait : t.wait = s.wait
  count : t.count = s.count
  counting : t.counting = s.counting
  listener : t.listener = s.listener

theorem settled (s : Server) : s.Settled s.settle.1 := by
  rcases s.settle_cases with h | ⟨-, -, h⟩
  · rw [h]
    exact ⟨rfl, rfl, rfl, rfl, rfl⟩
  · rw [h]
    exact ⟨rfl, rfl, rfl, rfl, rfl⟩

theorem output_settle {s : Server} {o : Output} (h : o ∈ s.settle.2) : o = .released := by
  rcases s.settle_cases with hs | ⟨-, -, hs⟩
  · simp [hs] at h
  · rw [hs] at h
    unfold destroy at h
    split_ifs at h <;> simp_all

end Server

end NetComponents.Livecapture
