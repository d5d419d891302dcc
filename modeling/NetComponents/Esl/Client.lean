import NetComponents.Library.Machine

/-!
# The poll loop of an ESL client

`start()` posts `poll()` to the event loop, which connects, announces the connection, receives
events until the session ends, and begins again, until it sees that `stop()` was called; then it
disconnects. A step below goes from one look at the shared flags to the next. What libesl
answers, what the connected flag is afterwards, and how the handlers end is decided outside.
-/

namespace NetComponents.Esl

open Library

/-- `stopped_` and the connected flag of the handle. -/
structure Client where
  stopped : Bool
  connected : Bool
  deriving DecidableEq, Repr

/-- What becomes of a received event: it cannot be parsed, it is a disconnect notice, or its
handlers return, throw an exception that `dispatch` catches, or throw another one. -/
inductive Received where
  | unparsed
  | notice
  | handled
  | threw
  | escaped
  deriving DecidableEq, Repr

/-- `process()`; `none` if an exception leaves it. -/
def process : Received → Option Bool
  | .unparsed => some true
  | .notice => some false
  | .handled => some true
  | .threw => some true
  | .escaped => none

/-- The result of `esl_recv_event_timed`, which may succeed without an event. -/
inductive Status where
  | ESL_BREAK
  | ESL_SUCCESS (evt : Option Received)
  | ESL_FAIL
  | ESL_DISCONNECTED
  | ESL_GENERR
  deriving DecidableEq, Repr

/-- `fexit` after a result; `none` if an exception leaves the loop. -/
def Status.fexit : Status → Option Bool
  | .ESL_BREAK => some false
  | .ESL_SUCCESS none => some false
  | .ESL_SUCCESS (some evt) => (process evt).map (!·)
  | .ESL_FAIL => some true
  | .ESL_DISCONNECTED => some true
  | .ESL_GENERR => some true

/-- The result of `esl_disconnect`. Success clears the connected flag, and the client is notified
then; a failure keeps it or not. -/
inductive Disconnect where
  | success (throws : Bool)
  | failure (connected : Bool)
  deriving DecidableEq, Repr

/-- Where a poll loop stands: queued; before `stopped()` is asked; in `connect()`; before the two
parts of `onConnected()`; in `recv()` before its loop condition, before an event is received, and
behind the loop; waiting for a second; in `disconnect()`; or it has returned, after a
successful `esl_disconnect` or not, or has ended with an exception. -/
inductive Point where
  | queued
  | head
  | connecting
  | announcing
  | subscribing
  | receiving (fexit : Bool)
  | reading
  | leaving (fexit : Bool)
  | waiting
  | disconnecting
  | returned (released : Bool)
  | threw
  deriving DecidableEq, Repr

/-- What is decided outside in a step: the result of a libesl call and the connected flag after
it, or whether a handler of the two notifications throws. -/
inductive Result where
  | none
  | connect (ok connected : Bool)
  | notify (throws : Bool)
  | subscribe (connected : Bool)
  | recv (status : Status) (connected : Bool)
  | disconnect (result : Disconnect)
  deriving DecidableEq, Repr

/-- An emission of `fonconnect_` or `fondisconnect_`. -/
inductive Notice where
  | connected
  | disconnected
  deriving DecidableEq, Repr

/-- A notification, or the connected flag of a handle that `reset()` zeroes. -/
inductive Output where
  | notice (n : Notice)
  | reset (connected : Bool)
  deriving DecidableEq, Repr

namespace Client

/-- `recv()` behind its loop: `onDisconnected()`, if the session has ended. -/
def leave (c : Client) (fexit : Bool) (r : Result) : Option (Client × Point × List Output) :=
  if !c.connected || fexit then
    match r with
    | .notify throws => some (c, if throws then .threw else .head, [.notice .disconnected])
    | _ => none
  else
    match r with
    | .none => some (c, .head, [])
    | _ => none

/-- `disconnect()`: an exception of a handler passes by the `reset()` at its end. -/
def disconnect (c : Client) (r : Result) : Option (Client × Point × List Output) :=
  let c' := { c with connected := false }
  if c.connected then
    match r with
    | .disconnect (.success false) =>
      some (c', .returned true, [.notice .disconnected, .reset false])
    | .disconnect (.success true) => some (c', .threw, [.notice .disconnected])
    | .disconnect (.failure connected) => some (c', .returned false, [.reset connected])
    | _ => none
  else
    match r with
    | .none => some (c', .returned false, [.reset false])
    | _ => none

/-- One step of `poll()`; `none` where it cannot go with this result. -/
def poll (c : Client) : Point → Result → Option (Client × Point × List Output)
  | .queued, .none => some (c, .head, [])
  | .head, .none =>
    if c.stopped then some (c, .disconnecting, [])
    -- `connect()` begins with `reset()`
    else some ({ c with connected := false }, .connecting, [.reset c.connected])
  | .connecting, .connect ok connected =>
    some ({ c with connected }, if ok && connected then .announcing else .waiting, [])
  | .announcing, .notify throws =>
    some (c, if throws then .threw else .subscribing, [.notice .connected])
  | .subscribing, .subscribe connected => some ({ c with connected }, .receiving false, [])
  | .receiving fexit, .none =>
    some (c, if !c.stopped && c.connected && !fexit then .reading else .leaving fexit, [])
  | .reading, .recv status connected =>
    match status.fexit with
    | none => some ({ c with connected }, .threw, [])
    | some fexit => some ({ c with connected }, .receiving fexit, [])
  | .leaving fexit, r => c.leave fexit r
  | .waiting, .none => some (c, .head, [])
  | .disconnecting, r => c.disconnect r
  | _, _ => none

/-- The steps of a poll loop. -/
inductive Step (c : Client) : Point → Result → Client → Point → List Output → Prop where
  | begins : Step c .queued .none c .head []
  | stops (h : c.stopped = true) : Step c .head .none c .disconnecting []
  | resets (h : c.stopped = false) :
      Step c .head .none { c with connected := false } .connecting [.reset c.connected]
  | connects : Step c .connecting (.connect true true) { c with connected := true } .announcing []
  | fails (ok connected : Bool) (h : ok = true → connected = false) :
      Step c .connecting (.connect ok connected) { c with connected } .waiting []
  | announces (throws : Bool) : Step c .announcing (.notify throws) c
      (if throws then .threw else .subscribing) [.notice .connected]
  | subscribes (connected : Bool) :
      Step c .subscribing (.subscribe connected) { c with connected } (.receiving false) []
  | reads (hstopped : c.stopped = false) (hconnected : c.connected = true) :
      Step c (.receiving false) .none c .reading []
  | ends (fexit : Bool) (h : c.stopped = true ∨ c.connected = false ∨ fexit = true) :
      Step c (.receiving fexit) .none c (.leaving fexit) []
  | receives (status : Status) (connected fexit : Bool) (h : status.fexit = some fexit) :
      Step c .reading (.recv status connected) { c with connected } (.receiving fexit) []
  | escapes (status : Status) (connected : Bool) (h : status.fexit = none) :
      Step c .reading (.recv status connected) { c with connected } .threw []
  | leaves (fexit throws : Bool) (h : c.connected = false ∨ fexit = true) :
      Step c (.leaving fexit) (.notify throws) c (if throws then .threw else .head)
        [.notice .disconnected]
  | stays (h : c.connected = true) : Step c (.leaving false) .none c .head []
  | waits : Step c .waiting .none c .head []
  | releases (h : c.connected = true) :
      Step c .disconnecting (.disconnect (.success false)) { c with connected := false }
        (.returned true) [.notice .disconnected, .reset false]
  | releaseThrows (h : c.connected = true) :
      Step c .disconnecting (.disconnect (.success true)) { c with connected := false }
        .threw [.notice .disconnected]
  | releaseFails (h : c.connected = true) (connected : Bool) :
      Step c .disconnecting (.disconnect (.failure connected)) { c with connected := false }
        (.returned false) [.reset connected]
  | released (h : c.connected = false) :
      Step c .disconnecting .none { c with connected := false } (.returned false) [.reset false]

theorem leave_step {c c' : Client} {fexit : Bool} {r : Result} {p : Point} {out : List Output}
    (h : c.leave fexit r = some (c', p, out)) : c.Step (.leaving fexit) r c' p out := by
  unfold leave at h
  split_ifs at h with hends
  · cases r with
    | notify throws =>
      cases h
      exact .leaves fexit throws (by simpa using hends)
    | _ => cases h
  · cases r with
    | none =>
      cases h
      obtain ⟨hconnected, rfl⟩ : c.connected = true ∧ fexit = false := by simpa using hends
      exact .stays hconnected
    | _ => cases h

theorem disconnect_step {c c' : Client} {r : Result} {p : Point} {out : List Output}
    (h : c.disconnect r = some (c', p, out)) : c.Step .disconnecting r c' p out := by
  unfold disconnect at h
  simp only at h
  split_ifs at h with hconnected
  · cases r with
    | disconnect result =>
      cases result with
      | success throws =>
        cases throws <;> cases h
        · exact .releases hconnected
        · exact .releaseThrows hconnected
      | failure connected =>
        cases h
        exact .releaseFails hconnected connected
    | _ => cases h
  · cases r with
    | none =>
      cases h
      exact .released (by simpa using hconnected)
    | _ => cases h

theorem poll_step {c c' : Client} {p p' : Point} {r : Result} {out : List Output}
    (h : c.poll p r = some (c', p', out)) : c.Step p r c' p' out := by
  cases p with
  | queued =>
    cases r with
    | none =>
      cases h
      exact .begins
    | _ => cases h
  | head =>
    cases r with
    | none =>
      simp only [poll] at h
      split_ifs at h with hstopped
      · cases h
        exact .stops hstopped
      · cases h
        exact .resets (by simpa using hstopped)
    | _ => cases h
  | connecting =>
    cases r with
    | connect ok connected =>
      simp only [poll] at h
      split_ifs at h with hboth
      · cases h
        obtain ⟨rfl, rfl⟩ : ok = true ∧ connected = true := by simpa using hboth
        exact .connects
      · cases h
        exact .fails ok connected (by simpa using hboth)
    | _ => cases h
  | announcing =>
    cases r with
    | notify throws =>
      cases h
      exact .announces throws
    | _ => cases h
  | subscribing =>
    cases r with
    | subscribe connected =>
      cases h
      exact .subscribes connected
    | _ => cases h
  | receiving fexit =>
    cases r with
    | none =>
      simp only [poll] at h
      split_ifs at h with hgoes
      · cases h
        obtain ⟨⟨hstopped, hconnected⟩, rfl⟩ :
            (c.stopped = false ∧ c.connected = true) ∧ fexit = false := by simpa using hgoes
        exact .reads hstopped hconnected
      · cases h
        apply Step.ends
        cases hstopped : c.stopped <;> cases hconnected : c.connected <;> cases fexit <;> simp_all
    | _ => cases h
  | reading =>
    cases r with
    | recv status connected =>
      simp only [poll] at h
      cases hfexit : status.fexit with
      | none =>
        simp only [hfexit, Option.some.injEq, Prod.mk.injEq] at h
        obtain ⟨rfl, rfl, rfl⟩ := h
        exact .escapes status connected hfexit
      | some fexit =>
        simp only [hfexit, Option.some.injEq, Prod.mk.injEq] at h
        obtain ⟨rfl, rfl, rfl⟩ := h
        exact .receives status connected fexit hfexit
    | _ => cases h
  | leaving fexit => exact leave_step h
  | waiting =>
    cases r with
    | none =>
      cases h
      exact .waits
    | _ => cases h
  | disconnecting => exact disconnect_step h
  | returned released => cases r <;> cases h
  | threw => cases r <;> cases h

end Client

/-- An event that cannot happen in this state. -/
inductive Fault where
  | disabled
  deriving DecidableEq, Repr

end NetComponents.Esl
