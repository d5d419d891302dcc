import NetComponents.Library.Machine

/-!
# The sockets of the curl service

libcurl asks through `action` for the events it wants a socket to be monitored
for. A watch is one-shot: `update` arms a watch for what is asked for and was
not before, and the handler of a watch that completed lets libcurl proceed and
then updates again. Everything happens on one event loop thread. A handler runs
to its end before the next one starts, but the callbacks that libcurl makes while
the handler is in `process` come in between its two halves, so a run is a
sequence of callbacks, completions, and first and second halves of handlers.
-/

namespace NetComponents.Curl

open Library

/-- `int`, as a set of events. -/
abbrev Mask := BitVec 32

def CURL_POLL_IN : Mask := 1
def CURL_POLL_OUT : Mask := 2
def CURL_POLL_INOUT : Mask := 3
def CURL_POLL_REMOVE : Mask := 4

def CURL_CSELECT_IN : Mask := 1
def CURL_CSELECT_OUT : Mask := 2
def CURL_CSELECT_ERR : Mask := 4

inductive Direction where
  | read
  | write
  deriving DecidableEq, Repr

namespace Direction

/-- The bit by which libcurl asks for a direction. -/
def poll : Direction → Mask
  | read => CURL_POLL_IN
  | write => CURL_POLL_OUT

/-- The bit that the handler of a watch is given. -/
def select : Direction → Mask
  | read => CURL_CSELECT_IN
  | write => CURL_CSELECT_OUT

end Direction

/-- The mask asks for the direction. -/
abbrev Mask.Has (mask : Mask) (d : Direction) : Prop := mask &&& d.poll = d.poll

/-- `update` arms a watch for the direction. -/
abbrev Armed (what prev : Mask) (d : Direction) : Prop := what.Has d ∧ prev &&& d.poll = 0

/-- The `Socket` object of a handle. It is in `sockets_` if `registered`; libcurl has
been told about it with `assign`. Its watches wait for the socket, or have completed and their
handlers are queued. -/
structure Socket where
  registered : Bool
  assigned : Bool
  mask : Mask
  reads : ℕ := 0
  writes : ℕ := 0
  queuedReads : ℕ := 0
  queuedWrites : ℕ := 0
  deriving DecidableEq, Repr

namespace Socket

def absent : Socket where
  registered := false
  assigned := false
  mask := 0

def created : Socket where
  registered := true
  assigned := false
  mask := 0

def waiting (sock : Socket) : Direction → ℕ
  | .read => sock.reads
  | .write => sock.writes

def queued (sock : Socket) : Direction → ℕ
  | .read => sock.queuedReads
  | .write => sock.queuedWrites

/-- The outstanding watches, whose handlers are still to run. -/
def watches (sock : Socket) (d : Direction) : ℕ := sock.waiting d + sock.queued d

/-- `read` -/
def read (sock : Socket) : Socket := { sock with reads := sock.reads + 1 }

/-- `write` -/
def write (sock : Socket) : Socket := { sock with writes := sock.writes + 1 }

/-- One watch completes, and its handler is queued. -/
def ready (sock : Socket) : Direction → Socket
  | .read => { sock with reads := sock.reads - 1, queuedReads := sock.queuedReads + 1 }
  | .write => { sock with writes := sock.writes - 1, queuedWrites := sock.queuedWrites + 1 }

/-- A queued handler is called. -/
def complete (sock : Socket) : Direction → Socket
  | .read => { sock with queuedReads := sock.queuedReads - 1 }
  | .write => { sock with queuedWrites := sock.queuedWrites - 1 }

/-- Aborts the watches that wait: their handlers do nothing. It is too late for the queued ones. -/
def cancel (sock : Socket) : Socket := { sock with reads := 0, writes := 0 }

/-- `Service::update` -/
def update (sock : Socket) (what prev : Mask) : Socket :=
  let sock := { sock with mask := what }
  let sock :=
    if what &&& CURL_POLL_IN = CURL_POLL_IN ∧ prev &&& CURL_POLL_IN = 0 then sock.read else sock
  if what &&& CURL_POLL_OUT = CURL_POLL_OUT ∧ prev &&& CURL_POLL_OUT = 0 then sock.write
  else sock

@[simp] theorem registered_complete (sock : Socket) (d : Direction) :
    (sock.complete d).registered = sock.registered := by
  cases d <;> rfl

@[simp] theorem mask_complete (sock : Socket) (d : Direction) :
    (sock.complete d).mask = sock.mask := by
  cases d <;> rfl

@[simp] theorem registered_ready (sock : Socket) (d : Direction) :
    (sock.ready d).registered = sock.registered := by
  cases d <;> rfl

@[simp] theorem mask_ready (sock : Socket) (d : Direction) :
    (sock.ready d).mask = sock.mask := by
  cases d <;> rfl

theorem waiting_complete (sock : Socket) (d e : Direction) :
    (sock.complete d).waiting e = sock.waiting e := by
  cases d <;> cases e <;> rfl

theorem queued_complete_self (sock : Socket) (d : Direction) :
    (sock.complete d).queued d = sock.queued d - 1 := by
  cases d <;> rfl

theorem queued_complete_ne (sock : Socket) {d e : Direction} (h : e ≠ d) :
    (sock.complete d).queued e = sock.queued e := by
  cases d <;> cases e <;> first | rfl | exact absurd rfl h

theorem watches_complete_ne (sock : Socket) {d e : Direction} (h : e ≠ d) :
    (sock.complete d).watches e = sock.watches e := by
  rw [watches, watches, waiting_complete, queued_complete_ne _ h]

theorem queued_ready_self (sock : Socket) (d : Direction) :
    (sock.ready d).queued d = sock.queued d + 1 := by
  cases d <;> rfl

theorem queued_ready_ne (sock : Socket) {d e : Direction} (h : e ≠ d) :
    (sock.ready d).queued e = sock.queued e := by
  cases d <;> cases e <;> first | rfl | exact absurd rfl h

theorem waiting_ready_self (sock : Socket) (d : Direction) :
    (sock.ready d).waiting d = sock.waiting d - 1 := by
  cases d <;> rfl

theorem waiting_ready_ne (sock : Socket) {d e : Direction} (h : e ≠ d) :
    (sock.ready d).waiting e = sock.waiting e := by
  cases d <;> cases e <;> first | rfl | exact absurd rfl h

/-- A watch that completes stays outstanding until its handler is called. -/
theorem watches_ready (sock : Socket) {d : Direction} (hd : sock.waiting d ≠ 0) (e : Direction) :
    (sock.ready d).watches e = sock.watches e := by
  by_cases he : e = d
  · subst he
    rw [watches, watches, waiting_ready_self, queued_ready_self]
    omega
  · rw [watches, watches, waiting_ready_ne _ he, queued_ready_ne _ he]

theorem waiting_cancel (sock : Socket) (d : Direction) : sock.cancel.waiting d = 0 := by
  cases d <;> rfl

theorem queued_cancel (sock : Socket) (d : Direction) : sock.cancel.queued d = sock.queued d := by
  cases d <;> rfl

theorem mask_update (sock : Socket) (what prev : Mask) : (sock.update what prev).mask = what := by
  unfold update
  split_ifs <;> rfl

theorem registered_update (sock : Socket) (what prev : Mask) :
    (sock.update what prev).registered = sock.registered := by
  unfold update
  split_ifs <;> rfl

theorem queued_update (sock : Socket) (what prev : Mask) (d : Direction) :
    (sock.update what prev).queued d = sock.queued d := by
  unfold update
  cases d <;> split_ifs <;> rfl

theorem waiting_update (sock : Socket) (what prev : Mask) (d : Direction) :
    (sock.update what prev).waiting d =
      sock.waiting d + if Armed what prev d then 1 else 0 := by
  unfold update
  cases d with
  | read =>
    change _ = sock.reads +
      if what &&& CURL_POLL_IN = CURL_POLL_IN ∧ prev &&& CURL_POLL_IN = 0 then 1 else 0
    split_ifs <;> rfl
  | write =>
    change _ = sock.writes +
      if what &&& CURL_POLL_OUT = CURL_POLL_OUT ∧ prev &&& CURL_POLL_OUT = 0 then 1 else 0
    split_ifs <;> rfl

/-- One more watch for each direction that is armed, and no other change. -/
theorem watches_update (sock : Socket) (what prev : Mask) (d : Direction) :
    (sock.update what prev).watches d =
      sock.watches d + if Armed what prev d then 1 else 0 := by
  rw [watches, watches, waiting_update, queued_update]
  omega

end Socket

/-- `curl_socket_t` -/
abbrev Handle := ℤ

/-- A watch handler inside `process`: the socket, the direction of the watch, the error it
completed with, and the mask that was saved. -/
structure Running where
  sock : Handle
  direction : Direction
  error : Bool
  prev : Mask
  deriving DecidableEq, Repr

/-- The `mask` of the handler. -/
def Running.mask (r : Running) : Mask :=
  if r.error then r.direction.select ||| CURL_CSELECT_ERR else r.direction.select

structure Service where
  sockets : Handle → Socket
  running : Option Running

/-- What the environment does: libcurl's callbacks, where `socketp` tells whether libcurl
passes the pointer assigned to the socket or none; a watch completes; its handler is called, with
an error or not, and runs up to `process`; `process` returns and the handler runs to its end. -/
inductive Event where
  | socket (s : Handle)
  | close (s : Handle)
  | action (s : Handle) (what : Mask) (socketp : Bool)
  | ready (s : Handle) (d : Direction)
  | completed (s : Handle) (d : Direction) (error : Bool)
  | processed
  deriving DecidableEq, Repr

/-- A watch does not complete with an error. -/
def Event.NoError : Event → Prop
  | completed _ _ error => error = false
  | _ => True

/-- Events that cannot happen in a state. -/
inductive Fault where
  | handleInUse
  | notAssigned
  | handlerRunning
  | noWatch
  | noHandler
  deriving DecidableEq, Repr

/-- `Multi::process`, as the service calls it. -/
structure Process where
  s : Handle
  evbitmask : Mask
  deriving DecidableEq, Repr

namespace Service

def fresh : Service := ⟨fun _ => .absent, none⟩

def modify (sv : Service) (s : Handle) (f : Socket → Socket) : Service :=
  { sv with sockets := Function.update sv.sockets s (f (sv.sockets s)) }

@[simp] theorem sockets_modify_self (sv : Service) (s : Handle) (f : Socket → Socket) :
    (sv.modify s f).sockets s = f (sv.sockets s) := by
  simp [modify]

theorem sockets_modify_ne (sv : Service) {s s' : Handle} (h : s' ≠ s) (f : Socket → Socket) :
    (sv.modify s f).sockets s' = sv.sockets s' := by
  simp [modify, h]

theorem running_modify (sv : Service) (s : Handle) (f : Socket → Socket) :
    (sv.modify s f).running = sv.running := rfl

/-- A handle is in use as long as its `Socket` object exists: the map, the handlers of
outstanding watches and a running handler keep it alive. -/
def InUse (sv : Service) (s : Handle) : Prop :=
  (sv.sockets s).registered = true ∨ (sv.sockets s).watches .read ≠ 0 ∨
    (sv.sockets s).watches .write ≠ 0 ∨ sv.running.map Running.sock = some s

instance (sv : Service) (s : Handle) : Decidable (sv.InUse s) :=
  inferInstanceAs (Decidable (_ ∨ _ ∨ _ ∨ _))

def update (sv : Service) (s : Handle) (what prev : Mask) : Service :=
  sv.modify s fun sock => sock.update what prev

def add (sv : Service) (s : Handle) (what : Mask) : Service :=
  if (sv.sockets s).registered then
    (sv.modify s fun sock => { sock with assigned := true }).update s what 0
  else sv

def action (sv : Service) (s : Handle) (what : Mask) (socketp : Bool) : Service :=
  if what = CURL_POLL_IN ∨ what = CURL_POLL_OUT ∨ what = CURL_POLL_INOUT then
    if socketp = false then sv.add s what
    else if (sv.sockets s).registered then sv.update s what (sv.sockets s).mask
    else sv
  else if what = CURL_POLL_REMOVE then
    if socketp ∧ (sv.sockets s).registered ∧ (sv.sockets s).mask ≠ 0 then
      sv.modify s fun sock => { sock with mask := 0 }.cancel
    else sv
  else sv

/-- The end of a watch handler: continue monitoring unless there was an error, the socket
is closed, or libcurl asks for nothing. -/
def continueMonitoring (sv : Service) (r : Running) : Service :=
  if r.error = false ∧ (sv.sockets r.sock).registered ∧ (sv.sockets r.sock).mask ≠ 0 then
    sv.update r.sock (sv.sockets r.sock).mask (r.prev &&& ~~~r.mask)
  else sv

def step (sv : Service) : Event → Except Fault (Service × List Process)
  | .socket s =>
    if sv.InUse s then .error .handleInUse
    else .ok (sv.modify s fun _ => .created, [])
  | .close s =>
    .ok (sv.modify s fun sock => { sock with registered := false, assigned := false }, [])
  | .action s what socketp =>
    if socketp ∧ (sv.sockets s).assigned = false then .error .notAssigned
    else .ok (sv.action s what socketp, [])
  | .ready s d =>
    if (sv.sockets s).waiting d = 0 then .error .noWatch
    else .ok (sv.modify s fun sock => sock.ready d, [])
  | .completed s d error =>
    if sv.running.isSome then .error .handlerRunning
    else if (sv.sockets s).queued d = 0 then .error .noWatch
    else
      let r : Running := ⟨s, d, error, (sv.sockets s).mask⟩
      .ok ({ sv.modify s fun sock => sock.complete d with running := some r }, [⟨s, r.mask⟩])
  | .processed =>
    match sv.running with
    | none => .error .noHandler
    | some r => .ok ({ sv.continueMonitoring r with running := none }, [])

theorem sockets_continueMonitoring_ne (sv : Service) {r : Running} {s : Handle}
    (h : s ≠ r.sock) : (sv.continueMonitoring r).sockets s = sv.sockets s := by
  unfold continueMonitoring
  split_ifs
  · exact sv.sockets_modify_ne h _
  · rfl

def machine : Machine Fault Service Event Process where
  step := step

/-- What an event that can happen does to the service. -/
inductive Effect (sv : Service) : Event → Service → Prop where
  | socket (s : Handle) (hfree : ¬sv.InUse s) :
      Effect sv (.socket s) (sv.modify s fun _ => .created)
  | close (s : Handle) :
      Effect sv (.close s)
        (sv.modify s fun sock => { sock with registered := false, assigned := false })
  | action (s : Handle) (what : Mask) (socketp : Bool) :
      Effect sv (.action s what socketp) (sv.action s what socketp)
  | ready (s : Handle) (d : Direction) (hwatch : (sv.sockets s).waiting d ≠ 0) :
      Effect sv (.ready s d) (sv.modify s fun sock => sock.ready d)
  | completed (s : Handle) (d : Direction) (error : Bool) (hidle : sv.running = none)
      (hqueued : (sv.sockets s).queued d ≠ 0) :
      Effect sv (.completed s d error)
        { sv.modify s (fun sock => sock.complete d) with
          running := some ⟨s, d, error, (sv.sockets s).mask⟩ }
  | processed (r : Running) (hr : sv.running = some r) :
      Effect sv .processed { sv.continueMonitoring r with running := none }

theorem step_effect {sv sv' : Service} {e : Event} {out : List Process}
    (h : sv.step e = .ok (sv', out)) : sv.Effect e sv' := by
  cases e with
  | socket s =>
    simp only [step] at h
    split_ifs at h with hfree
    cases h
    exact .socket s hfree
  | close s =>
    cases h
    exact .close s
  | action s what socketp =>
    simp only [step] at h
    split_ifs at h
    cases h
    exact .action s what socketp
  | ready s d =>
    simp only [step] at h
    split_ifs at h with hwatch
    cases h
    exact .ready s d hwatch
  | completed s d error =>
    simp only [step] at h
    split_ifs at h with hrunning hqueued
    cases h
    exact .completed s d error (by simpa using hrunning) hqueued
  | processed =>
    simp only [step] at h
    cases hr : sv.running with
    | none => simp [hr] at h
    | some r =>
      simp only [hr] at h
      cases h
      exact .processed r hr

end Service

end NetComponents.Curl
