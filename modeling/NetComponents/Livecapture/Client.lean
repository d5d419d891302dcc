import NetComponents.Livecapture.Server
import NetComponents.Pcap.Parsers
import NetComponents.Sockets.WriteQueue

/-!
# The client of a capture

A `livecapture::Connection` gets the packets of its sniffer, filters them and writes what passes to
its socket. It has no owner: `start()` makes it the target of a timer and of a read, each packet
that waits to be filtered holds it as well, and it is destroyed when the last of these handlers has
run. Every handler runs to its end on its own; which one runs next is an input.
-/

namespace NetComponents.Livecapture

open Library Sockets

/-- How far a client is: its constructor has connected the slot of the sniffer, the accept callback
has its pointer and then calls `start()`, only handlers hold it, its destructor runs, and the
destructor has disconnected the slots. -/
inductive Phase where
  | constructing
  | created
  | started
  | released
  | destroying
  | destroyed
  deriving DecidableEq, Repr

/-- The read of a client. It is lost if a websocket has been closed before it was asked for: then
its handler is never called. -/
inductive Read where
  | none
  | pending
  | completed (error : Bool)
  | lost
  deriving DecidableEq, Repr

/-- The transport of a connection. -/
def transport : Protocol → Transport Message
  | .tcp => tcpSend
  | .websocket => webSend

/-- A `livecapture::Connection` with its socket: `isOpen` until it is closed on this side, or a
websocket on either; `posted` are the handlers of `post`, and `strand` those of
`BaseConnection::write`, that have not run. -/
structure Client where
  protocol : Protocol
  filter : Bytes
  phase : Phase
  isOpen : Bool
  timer : Wait
  reading : Read
  termination : Bool
  posted : List Pcap.Packet
  strand : List Message
  connection : BaseConnection Message

namespace Client

/-- A step of the client. The sniffer calls the slot (`packet`); a handler of `post` runs; the timer
expires, its handler runs; the read completes, its handler runs; the peer of a websocket closes it
(`hangup`); the server's termination signal arrives; the destructor comes to its end; a handler of
the strand runs, and a send completes. -/
inductive Event where
  | constructed
  | start (throws : Bool)
  | release
  | packet (p : Pcap.Packet)
  | run (i : ℕ)
  | expire
  | timer
  | complete (error : Bool)
  | read
  | hangup
  | terminate
  | destructed
  | strand
  | sent (error : Bool) (nwritten : ℕ)
  deriving DecidableEq, Repr

/-- What is seen of a client: it has posted a packet, has called `write`, the actions of its write
queue, and the emission of its termination signal. -/
inductive Output where
  | posted (p : Pcap.Packet)
  | wrote (msg : Message)
  | action (a : Action Message)
  | terminated

/-- The event cannot happen, or `shared_from_this()` throws `bad_weak_ptr`. -/
inductive Fault where
  | disabled
  | badWeakPtr
  deriving DecidableEq, Repr

/-- `text` as the bytes of a string -/
def text (s : String) : Bytes := s.toUTF8.data.toList

/-- `Connection::filter` -/
def passes (filter p : Bytes) : Bool :=
  if filter.isEmpty || p.isEmpty then false
  else if filter = text "*" then true
  else decide (filter <:+: p)

variable (toISOString : Pcap.Timeval → String) (port : ℕ)

/-- The line in front of the data. -/
def header (p : Pcap.Packet) : String :=
  toISOString p.info.ts ++ " " ++ p.info.srcAddr ++ ":" ++ toString p.info.srcPort ++ " -> " ++
    p.info.dstAddr ++ ":" ++ toString p.info.dstPort ++ "\n"

/-- What the handler of `post` writes. The port of the message has no initialiser. -/
def message (p : Pcap.Packet) : Message :=
  (Message.ofData (text (header toISOString p)) port).pushBack p.data

/-- The constructor. The termination signal of the server may be missing. -/
def fresh (protocol : Protocol) (filter : Bytes) (termination : Bool) : Client :=
  ⟨protocol, filter, .constructing, true, .none, .none, termination, [], [], .fresh⟩

/-- `tmrCapture_.cancel()` -/
def cancel (c : Client) : Client :=
  { c with timer := if c.timer = .waiting then .aborted else c.timer }

/-- `connection_->close()` -/
def close (c : Client) : Client :=
  { c with
    isOpen := false
    reading := if c.reading = .pending then .completed true else c.reading }

/-- `read()` -/
def startRead (c : Client) : Client :=
  { c with reading :=
      if c.isOpen then .pending
      else match c.protocol with
        | .tcp => .completed true
        | .websocket => .lost }

/-- Something but the accept callback holds a reference to the client. -/
def Held (c : Client) : Prop := c.timer ≠ .none ∨ c.reading ≠ .none ∨ c.posted ≠ []

instance (c : Client) : Decidable c.Held := inferInstanceAs (Decidable (_ ∨ _ ∨ _))

/-- The client is destroyed if the last reference has been dropped. -/
def settle (c : Client) : Client :=
  if c.phase = .released ∧ ¬c.Held then { c with phase := .destroying } else c

/-- A handler of the strand of the connection. -/
def serve (c : Client) (h : Handler Message) : Option (Client × List Output) :=
  match BaseConnection.step (transport c.protocol) c.connection h with
  | .ok (connection, log) => some ({ c with connection := connection }, log.map .action)
  | .error _ => none

/-- One event, before references are dropped; `none` where it cannot happen. -/
def fire (c : Client) : Event → Option (Client × List Output)
  | .constructed =>
    if c.phase = .constructing then some ({ c with phase := .created }, []) else none
  | .start throws =>
    if c.phase = .created then
      let c := { c with phase := .started, timer := .waiting }
      some (if throws then c else c.startRead, [])
    else none
  | .release =>
    if c.phase = .created ∨ c.phase = .started then some ({ c with phase := .released }, [])
    else none
  | .packet p =>
    if c.phase = .created ∨ c.phase = .started ∨ c.phase = .released then
      some ({ c with posted := c.posted ++ [p] }, [.posted p])
    else none
  | .run i =>
    match c.posted[i]? with
    | none => none
    | some p =>
      let c := { c with posted := c.posted.eraseIdx i }
      if passes c.filter p.data then
        let msg := message toISOString port p
        some ({ c with strand := c.strand ++ [msg] }, [.wrote msg])
      else some (c, [])
  | .expire => if c.timer = .waiting then some ({ c with timer := .expired }, []) else none
  | .timer =>
    match c.timer with
    | .expired => some ({ c with timer := .none }.close, [])
    | .aborted => some ({ c with timer := .none }, [])
    | _ => none
  | .complete error =>
    if c.reading = .pending ∧ c.protocol = .tcp then
      some ({ c with reading := .completed error }, [])
    else none
  | .read =>
    match c.reading with
    | .completed false => some (c.startRead, [])
    | .completed true => some ({ c with reading := .none }.cancel, [])
    | _ => none
  | .hangup => if c.protocol = .websocket ∧ c.isOpen then some (c.close, []) else none
  | .terminate =>
    some (if c.termination then ({ c with termination := false }.cancel).close else c, [])
  | .destructed =>
    if c.phase = .destroying then
      some ({ c with phase := .destroyed, termination := false }, [.terminated])
    else none
  | .strand =>
    match c.strand with
    | [] => none
    | msg :: rest => { c with strand := rest }.serve (.posted msg)
  | .sent error nwritten => c.serve (.completed error nwritten)

def step (c : Client) (e : Event) : Except Fault (Client × List Output) :=
  match c.fire toISOString port e with
  | some (c', out) => .ok (c'.settle, out)
  | none =>
    match e with
    | .packet _ => .error .badWeakPtr
    | _ => .error .disabled

def machine : Machine Fault Client Event Output := ⟨step toISOString port⟩

def postedOf (out : List Output) : List Pcap.Packet :=
  out.filterMap fun
    | .posted p => some p
    | _ => none

def wroteOf (out : List Output) : List Message :=
  out.filterMap fun
    | .wrote msg => some msg
    | _ => none

def actionsOf (out : List Output) : List (Action Message) :=
  out.filterMap fun
    | .action a => some a
    | _ => none

@[simp] theorem postedOf_append (out out' : List Output) :
    postedOf (out ++ out') = postedOf out ++ postedOf out' := List.filterMap_append

@[simp] theorem wroteOf_append (out out' : List Output) :
    wroteOf (out ++ out') = wroteOf out ++ wroteOf out' := List.filterMap_append

@[simp] theorem actionsOf_append (out out' : List Output) :
    actionsOf (out ++ out') = actionsOf out ++ actionsOf out' := List.filterMap_append

theorem shows_log (log : List (Action Message)) :
    postedOf (log.map .action) = [] ∧ wroteOf (log.map .action) = [] ∧
      actionsOf (log.map .action) = log := by
  simp [postedOf, wroteOf, actionsOf]

/-- What the lifetime of a client leaves alone. -/
structure Frame (c c' : Client) : Prop where
  protocol : c'.protocol = c.protocol
  filter : c'.filter = c.filter
  posted : c'.posted = c.posted
  strand : c'.strand = c.strand
  connection : c'.connection = c.connection

theorem frame_settle (c : Client) : c.Frame c.settle := by
  unfold settle
  split_ifs <;> exact ⟨rfl, rfl, rfl, rfl, rfl⟩

/-- The events that move packets and messages. -/
def Event.Moves : Event → Prop
  | .packet _ => True
  | .run _ => True
  | .strand => True
  | .sent _ _ => True
  | _ => False

variable {toISOString port}

theorem fire_frame {c c' : Client} {e : Event} {out : List Output} (he : ¬e.Moves)
    (h : c.fire toISOString port e = some (c', out)) :
    c.Frame c' ∧ (out = [] ∨ out = [.terminated]) := by
  cases e with
  | packet p => exact absurd trivial he
  | run i => exact absurd trivial he
  | strand => exact absurd trivial he
  | sent error nwritten => exact absurd trivial he
  | destructed =>
    simp only [fire, Option.ite_none_right_eq_some, Option.some.injEq, Prod.mk.injEq] at h
    obtain ⟨-, rfl, rfl⟩ := h
    exact ⟨⟨rfl, rfl, rfl, rfl, rfl⟩, .inr rfl⟩
  | start throws =>
    simp only [fire, Option.ite_none_right_eq_some, Option.some.injEq, Prod.mk.injEq] at h
    obtain ⟨-, rfl, rfl⟩ := h
    cases throws <;> exact ⟨⟨rfl, rfl, rfl, rfl, rfl⟩, .inl rfl⟩
  | timer =>
    cases htimer : c.timer <;> simp [fire, htimer] at h <;> obtain ⟨rfl, rfl⟩ := h <;>
      exact ⟨⟨rfl, rfl, rfl, rfl, rfl⟩, .inl rfl⟩
  | read =>
    cases hread : c.reading with
    | completed error =>
      cases error <;> simp [fire, hread] at h <;> obtain ⟨rfl, rfl⟩ := h <;>
        exact ⟨⟨rfl, rfl, rfl, rfl, rfl⟩, .inl rfl⟩
    | _ => simp [fire, hread] at h
  | terminate =>
    simp only [fire, Option.some.injEq, Prod.mk.injEq] at h
    obtain ⟨rfl, rfl⟩ := h
    split_ifs <;> exact ⟨⟨rfl, rfl, rfl, rfl, rfl⟩, .inl rfl⟩
  | _ =>
    simp only [fire, Option.ite_none_right_eq_some, Option.some.injEq, Prod.mk.injEq] at h
    obtain ⟨-, rfl, rfl⟩ := h
    exact ⟨⟨rfl, rfl, rfl, rfl, rfl⟩, .inl rfl⟩

theorem serve_posted {c c' : Client} {h : Handler Message} {out : List Output}
    (hserve : c.serve h = some (c', out)) : postedOf out = [] := by
  unfold serve at hserve
  cases hstep : BaseConnection.step (transport c.protocol) c.connection h with
  | error fault => simp [hstep] at hserve
  | ok r =>
    simp only [hstep, Option.some.injEq, Prod.mk.injEq] at hserve
    obtain ⟨-, rfl⟩ := hserve
    exact (shows_log r.2).1

theorem step_ok_iff {c c' : Client} {e : Event} {out : List Output} :
    c.step toISOString port e = .ok (c', out) ↔
      ∃ d, c.fire toISOString port e = some (d, out) ∧ c' = d.settle := by
  unfold step
  cases c.fire toISOString port e with
  | none => cases e <;> simp
  | some r =>
    simp only [Except.ok.injEq, Prod.mk.injEq, Option.some.injEq]
    constructor
    · rintro ⟨rfl, rfl⟩
      exact ⟨r.1, rfl, rfl⟩
    · rintro ⟨d, rfl, rfl⟩
      exact ⟨rfl, rfl⟩

section Ledger

variable (toISOString port)

/-- The messages that the filter lets pass, for a list of packets. -/
def rendered (filter : Bytes) (packets : List Pcap.Packet) : List Message :=
  (packets.filter fun p => passes filter p.data).map (message toISOString port)

@[simp] theorem rendered_append (filter : Bytes) (ps qs : List Pcap.Packet) :
    rendered toISOString port filter (ps ++ qs) =
      rendered toISOString port filter ps ++ rendered toISOString port filter qs := by
  simp [rendered]

/-- Where the packets of a client are: each is written, unless the filter drops it, or waits to be
filtered; each message has gone through the write queue, or waits on the strand. -/
structure Ledger (protocol : Protocol) (filter : Bytes) (events : List Event) (out : List Output)
    (c : Client) : Prop where
  transports : c.protocol = protocol
  filters : c.filter = filter
  perm : (wroteOf out ++ rendered toISOString port filter c.posted).Perm
    (rendered toISOString port filter (postedOf out))
  fifo : (∀ i, .run i ∈ events → i = 0) →
    wroteOf out ++ rendered toISOString port filter c.posted =
      rendered toISOString port filter (postedOf out)
  served : ∃ handlers, (BaseConnection.machine (transport protocol)).run .fresh handlers =
      .ok (c.connection, actionsOf out) ∧ posts handlers ++ c.strand = wroteOf out ∧
    ∀ n, .completed true n ∈ handlers → .sent true n ∈ events

variable {toISOString port} {protocol : Protocol} {filter : Bytes} {events : List Event}
  {out : List Output} {c c' : Client}

theorem Ledger.of_frame (h : Ledger toISOString port protocol filter events out c)
    (hframe : c.Frame c') : Ledger toISOString port protocol filter events out c' where
  transports := hframe.protocol.trans h.transports
  filters := hframe.filter.trans h.filters
  perm := by
    rw [hframe.posted]
    exact h.perm
  fifo := by
    rw [hframe.posted]
    exact h.fifo
  served := by
    rw [hframe.connection, hframe.strand]
    exact h.served

theorem Ledger.quiet (h : Ledger toISOString port protocol filter events out c) (e : Event)
    {o : List Output} (ho : o = [] ∨ o = [.terminated]) :
    Ledger toISOString port protocol filter (events ++ [e]) (out ++ o) c := by
  have hshows : postedOf o = [] ∧ wroteOf o = [] ∧ actionsOf o = [] := by
    rcases ho with rfl | rfl <;> exact ⟨rfl, rfl, rfl⟩
  obtain ⟨hposted, hwrote, hactions⟩ := hshows
  obtain ⟨handlers, hrun, hposts, herror⟩ := h.served
  refine ⟨h.transports, h.filters, ?_, ?_, handlers, ?_, ?_, ?_⟩
  · simpa [hposted, hwrote] using h.perm
  · intro hfifo
    simpa [hposted, hwrote] using h.fifo fun i hi => hfifo i (by simp [hi])
  · simpa [hactions] using hrun
  · simpa [hwrote] using hposts
  · exact fun n hn => List.mem_append_left _ (herror n hn)

theorem Ledger.packet (h : Ledger toISOString port protocol filter events out c)
    (p : Pcap.Packet) :
    Ledger toISOString port protocol filter (events ++ [.packet p]) (out ++ [.posted p])
      { c with posted := c.posted ++ [p] } := by
  have hshows : postedOf [.posted p] = [p] ∧ wroteOf [.posted p] = [] ∧
      actionsOf [.posted p] = [] := ⟨rfl, rfl, rfl⟩
  obtain ⟨hposted, hwrote, hactions⟩ := hshows
  obtain ⟨handlers, hrun, hposts, herror⟩ := h.served
  refine ⟨h.transports, h.filters, ?_, ?_, handlers, ?_, ?_, ?_⟩
  · simp only [postedOf_append, wroteOf_append, rendered_append, hposted, hwrote, List.append_nil]
    rw [← List.append_assoc]
    exact h.perm.append_right _
  · intro hfifo
    simp only [postedOf_append, wroteOf_append, rendered_append, hposted, hwrote, List.append_nil]
    rw [← List.append_assoc, h.fifo fun i hi => hfifo i (by simp [hi])]
  · simpa [hactions] using hrun
  · simpa [hwrote] using hposts
  · exact fun n hn => List.mem_append_left _ (herror n hn)

/-- A handler of `post` runs: what it does not drop, it writes. -/
theorem Ledger.run (h : Ledger toISOString port protocol filter events out c) {i : ℕ}
    {p : Pcap.Packet} (hi : c.posted[i]? = some p) {o : List Output}
    (ho : o = (rendered toISOString port filter [p]).map .wrote) :
    Ledger toISOString port protocol filter (events ++ [.run i]) (out ++ o)
      { c with
        posted := c.posted.eraseIdx i
        strand := c.strand ++ rendered toISOString port filter [p] } := by
  have hshows : postedOf o = [] ∧ wroteOf o = rendered toISOString port filter [p] ∧
      actionsOf o = [] := by
    rw [ho]
    simp [postedOf, wroteOf, actionsOf]
  obtain ⟨hposted, hwrote, hactions⟩ := hshows
  obtain ⟨handlers, hrun, hposts, herror⟩ := h.served
  obtain ⟨hlt, hget⟩ := List.getElem?_eq_some_iff.mp hi
  refine ⟨h.transports, h.filters, ?_, ?_, handlers, ?_, ?_, ?_⟩
  · have hperm : (p :: c.posted.eraseIdx i).Perm c.posted := by
      rw [← hget]
      exact List.getElem_cons_eraseIdx_perm hlt
    have hrendered : (rendered toISOString port filter [p] ++
        rendered toISOString port filter (c.posted.eraseIdx i)).Perm
        (rendered toISOString port filter c.posted) := by
      rw [← rendered_append]
      exact (hperm.filter _).map _
    simp only [postedOf_append, wroteOf_append, hposted, hwrote, List.append_nil,
      List.append_assoc]
    exact (hrendered.append_left _).trans h.perm
  · intro hfifo
    obtain rfl := hfifo i (by simp)
    have hlist : c.posted = [p] ++ c.posted.eraseIdx 0 := by
      cases hposted : c.posted with
      | nil => simp [hposted] at hi
      | cons q rest =>
        simp [hposted] at hi
        simp [hi]
    have hearlier := h.fifo fun i hi => hfifo i (by simp [hi])
    rw [hlist, rendered_append] at hearlier
    simpa [hposted, hwrote] using hearlier
  · simpa [hactions] using hrun
  · rw [wroteOf_append, hwrote, ← hposts, List.append_assoc]
  · exact fun n hn => List.mem_append_left _ (herror n hn)

theorem Ledger.serve (h : Ledger toISOString port protocol filter events out c)
    {handler : Handler Message} {strand : List Message} (e : Event)
    (hstrand : c.strand = posts [handler] ++ strand)
    (herror : ∀ n, handler = .completed true n → e = .sent true n) {d : Client} {o : List Output}
    (hserve : { c with strand := strand }.serve handler = some (d, o)) :
    Ledger toISOString port protocol filter (events ++ [e]) (out ++ o) d := by
  obtain ⟨handlers, hhandlers, hposts, hearlier⟩ := h.served
  unfold Client.serve at hserve
  dsimp only at hserve
  cases hstep : BaseConnection.step (transport c.protocol) c.connection handler with
  | error fault => simp [hstep] at hserve
  | ok r =>
    obtain ⟨connection, log⟩ := r
    simp only [hstep, Option.some.injEq, Prod.mk.injEq] at hserve
    obtain ⟨rfl, rfl⟩ := hserve
    obtain ⟨hposted, hwrote, hactions⟩ := shows_log log
    rw [h.transports] at hstep
    refine ⟨h.transports, h.filters, ?_, ?_, handlers ++ [handler], ?_, ?_, ?_⟩
    · simpa [hposted, hwrote] using h.perm
    · intro hfifo
      simpa [hposted, hwrote] using h.fifo fun i hi => hfifo i (by simp [hi])
    · rw [actionsOf_append, hactions]
      exact (BaseConnection.machine (transport protocol)).run_snoc hhandlers hstep
    · rw [posts_append, wroteOf_append, hwrote, List.append_nil, ← hposts, hstrand,
        List.append_assoc]
    · intro n hn
      rcases List.mem_append.mp hn with hn | hn
      · exact List.mem_append_left _ (hearlier n hn)
      · rw [herror n (List.mem_singleton.mp hn).symm]
        simp

theorem Ledger.step (h : Ledger toISOString port protocol filter events out c) {e : Event}
    {o : List Output} (hstep : c.step toISOString port e = .ok (c', o)) :
    Ledger toISOString port protocol filter (events ++ [e]) (out ++ o) c' := by
  obtain ⟨d, hfire, rfl⟩ := step_ok_iff.mp hstep
  apply Ledger.of_frame _ (frame_settle d)
  by_cases he : e.Moves
  · cases e with
    | packet p =>
      simp only [fire, Option.ite_none_right_eq_some, Option.some.injEq, Prod.mk.injEq] at hfire
      obtain ⟨-, rfl, rfl⟩ := hfire
      exact h.packet p
    | run i =>
      cases hi : c.posted[i]? with
      | none => simp [fire, hi] at hfire
      | some p =>
        have hrun := h.run hi rfl
        have hfilter := h.filters
        subst hfilter
        simp only [fire, hi] at hfire
        cases hpasses : passes c.filter p.data with
        | true =>
          simp only [hpasses, if_true, Option.some.injEq, Prod.mk.injEq] at hfire
          obtain ⟨rfl, rfl⟩ := hfire
          simpa [rendered, hpasses] using hrun
        | false =>
          simp only [hpasses, Bool.false_eq_true, if_false, Option.some.injEq,
            Prod.mk.injEq] at hfire
          obtain ⟨rfl, rfl⟩ := hfire
          simpa [rendered, hpasses] using hrun
    | strand =>
      cases hstrand : c.strand with
      | nil => simp [fire, hstrand] at hfire
      | cons msg rest =>
        simp only [fire, hstrand] at hfire
        exact h.serve .strand (by simpa [posts] using hstrand) (by simp) hfire
    | sent error nwritten =>
      refine h.serve (.sent error nwritten) (by simp [posts]) ?_ hfire
      intro n hn
      cases hn
      rfl
    | _ => exact absurd he (fun h => h)
  · obtain ⟨hframe, hout⟩ := fire_frame he hfire
    exact (h.quiet e hout).of_frame hframe

theorem run_ledger {termination : Bool}
    (hrun : (machine toISOString port).run (fresh protocol filter termination) events =
      .ok (c, out)) : Ledger toISOString port protocol filter events out c :=
  (machine toISOString port).run_invariant (Ledger toISOString port protocol filter)
    (fun _ _ _ _ _ _ h hstep => h.step hstep)
    ⟨rfl, rfl, List.Perm.refl _, fun _ => rfl, [], rfl, rfl, nofun⟩ hrun

/-- As long as no send fails, what has been written is sent in order. -/
theorem Ledger.sends (h : Ledger toISOString port protocol filter events out c)
    (hsent : ∀ n, .sent true n ∉ events) :
    sendsOf (actionsOf out) ++ c.connection.queue.tail ++ c.strand = wroteOf out := by
  obtain ⟨handlers, hrun, hposts, herror⟩ := h.served
  have hthrow : ∀ k, ∀ msg ∈ posts handlers, transport protocol k msg ≠ .threw := by
    intro k msg _
    cases protocol <;> exact nofun
  rcases BaseConnection.run_serves hthrow fun n hn => hsent n (herror n hn) with
    ⟨connection, log, hrun', hserves⟩ | hfailed
  · obtain ⟨rfl, rfl⟩ := Prod.mk.inj (Except.ok.inj (hrun.symm.trans hrun'))
    rw [hserves.sent, hposts]
  · cases hfailed.symm.trans hrun

end Ledger

end Client
end NetComponents.Livecapture
