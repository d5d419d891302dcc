import NetComponents.Scgi.Dispatcher
import NetComponents.Scgi.RoundTrip
import NetComponents.Scgi.Uri

/-!
# The service

Connections read their streams, each with a parser of its own; all of them give their messages to
one dispatcher, whose handlers reply when they like. What a connection is sent is followed to the
responses that its peer reads.
-/

namespace NetComponents.Scgi

open Library

section Accepting

variable {δ : Type} {d : Dispatcher δ}

/-- A dispatcher that accepts every message. -/
def accepting : Dispatcher Unit := ⟨fun _ _ => (.returned true, ())⟩

theorem accepts_accepting : accepting.Accepts := fun _ _ => rfl

theorem deliver_accepts (haccept : d.Accepts) (t : δ) (payload : Bytes) (next : δ → Outcome) :
    deliver d t payload next = (next (d.onMessage t payload).2).cons payload :=
  if_pos (haccept t payload)

theorem reference_accepting (haccept : d.Accepts) (stream : Bytes) (t : δ) :
    reference d t stream = reference accepting () stream := by
  induction hn : stream.length using Nat.strong_induction_on generalizing stream t with
  | _ n ih =>
    subst hn
    rw [reference, reference]
    by_cases hshort : stream.length ≤ 8
    · rw [if_pos hshort, if_pos hshort]
    · rw [if_neg hshort, if_neg hshort]
      have hlater : ∀ n t, reference d t ((stream.drop 8).drop n) =
          reference accepting () ((stream.drop 8).drop n) := by
        intro n t
        exact ih _ (by simp only [List.length_drop]; omega) _ t rfl
      have hrest : reference d t (stream.drop 8) = reference accepting () (stream.drop 8) :=
        hlater 0 t
      simp only [hrest, hlater, deliver_accepts haccept, deliver_accepts accepts_accepting]

theorem residual_accepting (haccept : d.Accepts) (p : Parser) (t : δ) (rest : Bytes) :
    Parser.residual d (p, t) rest = Parser.residual accepting (p, ()) rest := by
  have hbody : ∀ got need rest, body d t got need rest = body accepting () got need rest := by
    intro got need rest
    simp only [body, deliver_accepts haccept, deliver_accepts accepts_accepting,
      reference_accepting haccept]
  have hresume : p.resume d t rest = p.resume accepting () rest := by
    simp only [Parser.resume, Parser.inBody, hbody, reference_accepting haccept]
  simp only [Parser.residual, hresume]

/-- The messages among the events of a parser. -/
def messages (events : List Event) : List Bytes :=
  events.filterMap fun
    | .onMessage payload => some payload
    | .close => none

@[simp] theorem messages_append (events events' : List Event) :
    messages (events ++ events') = messages events ++ messages events' := List.filterMap_append

variable (d) in
/-- The dispatcher has seen the messages of the events. -/
def Logged (t : δ) (l : Loop δ) : Prop :=
  l.dispatcher = (messages l.events).foldl (fun t payload => (d.onMessage t payload).2) t

theorem Logged.setParser {t : δ} {l : Loop δ} (h : Logged d t l) (p : Parser) :
    Logged d t { l with parser := p } := h

namespace Loop

variable {t : δ} {buf : Bytes} {size : ℕ} {l l' : Loop δ} {go : Bool}

theorem finish_logged (h : Logged d t l) (n : ℕ) : Logged d t (finish d l n).1 := by
  have hlast : ∀ events, messages events = [l.parser.msgbuf] →
      (d.onMessage l.dispatcher l.parser.msgbuf).2 = (messages (l.events ++ events)).foldl
        (fun t payload => (d.onMessage t payload).2) t := by
    intro events hevents
    rw [messages_append, hevents, List.foldl_append, ← h]
    rfl
  cases hskip : l.parser.skipmsg with
  | true =>
    rw [finish_skipped d n hskip]
    exact h
  | false =>
    by_cases hret : (d.onMessage l.dispatcher l.parser.msgbuf).1 = .returned true
    · rw [finish_accepted d n hskip hret]
      exact hlast _ rfl
    · rw [finish_refused d n hskip hret]
      exact hlast _ rfl

theorem consume_logged (h : Logged d t l) (hstep : consume d buf size l = .ok (l', go)) :
    Logged d t l' := by
  cases hcopy : l.copyBody buf (l.needs size) with
  | error e => simp [consume, hcopy, Except.map] at hstep
  | ok msgbuf =>
    rw [consume_eq d hcopy] at hstep
    have hresult := Except.ok.inj hstep
    split_ifs at hresult with hcomplete
    · obtain rfl : _ = l' := congrArg Prod.fst hresult
      exact finish_logged (h.setParser _) _
    · obtain ⟨rfl, -⟩ := Prod.mk.inj hresult
      exact h

theorem iterate_logged (h : Logged d t l) (hstep : iterate d buf size l = .ok (l', go)) :
    Logged d t l' := by
  unfold iterate at hstep
  simp only at hstep
  split_ifs at hstep with hheader hchecked hvalid hover hzero
  · cases hread : read buf l.i 1 with
    | error e => simp [hread, Except.map] at hstep
    | ok b =>
      simp only [hread, Except.map, Except.ok.injEq, Prod.mk.injEq] at hstep
      obtain ⟨rfl, -⟩ := hstep
      exact h
  · obtain ⟨rfl, -⟩ := Prod.mk.inj (Except.ok.inj hstep)
    simpa [Logged, fail, messages] using h
  · exact consume_logged (h.setParser _) hstep
  · obtain ⟨rfl, -⟩ := Prod.mk.inj (Except.ok.inj hstep)
    exact h
  · exact consume_logged (h.setParser _) hstep
  · exact consume_logged h hstep

theorem loop_logged {fuel : ℕ} (h : Logged d t l)
    (hloop : loop d buf size fuel l = .ok (l', go)) : Logged d t l' := by
  induction fuel generalizing l with
  | zero => cases hloop
  | succ fuel ih =>
    rw [loop] at hloop
    split_ifs at hloop with hi
    · cases hstep : iterate d buf size l with
      | error e => simp [hstep] at hloop
      | ok r =>
        obtain ⟨l₁, next⟩ := r
        have hlogged := iterate_logged h hstep
        cases next with
        | true =>
          simp only [hstep] at hloop
          exact ih hlogged hloop
        | false =>
          simp only [hstep, Except.ok.injEq, Prod.mk.injEq] at hloop
          rw [← hloop.1]
          exact hlogged
    · obtain ⟨rfl, -⟩ := Prod.mk.inj (Except.ok.inj hloop)
      exact h

end Loop

theorem process_logged {p : Parser} {t : δ} {c : Chunk} {l : Loop δ} {go : Bool}
    (h : p.process d t c = .ok (l, go)) : Logged d t l := by
  unfold Parser.process at h
  split_ifs at h with hfailed
  · obtain ⟨rfl, -⟩ := Prod.mk.inj (Except.ok.inj h)
    rfl
  · exact Loop.loop_logged (by rfl) h

theorem process_effect (haccept : d.Accepts) {p : Parser} (hinv : p.Inv) (t : δ) (c : Chunk) :
    ∃ l ret, p.process d t c = .ok (l, ret) ∧ l.parser.Inv ∧ Logged d t l ∧
      ∀ rest, Parser.residual accepting (p, ()) (c.bytes ++ rest) =
        (l.events ++ (Parser.residual accepting (l.parser, ()) rest).1,
          (Parser.residual accepting (l.parser, ()) rest).2) := by
  obtain ⟨⟨p', t'⟩, o, hstep, hinv', hrest⟩ := Parser.process_residual d (p, t) c hinv
  cases hprocess : p.process d t c with
  | error stop => simp [Parser.machine, hprocess, Except.map] at hstep
  | ok r =>
    obtain ⟨l, ret⟩ := r
    simp only [Parser.machine, hprocess, Except.map, Except.ok.injEq, Prod.mk.injEq] at hstep
    obtain ⟨⟨rfl, rfl⟩, rfl⟩ := hstep
    refine ⟨l, ret, rfl, hinv', process_logged hprocess, ?_⟩
    simpa only [residual_accepting haccept] using hrest

end Accepting

/-- The json library, and the names of the methods. A text that is not valid UTF-8 has no dump. -/
structure Codec where
  parse : Bytes → Exec Json
  dump : Json → Option Bytes
  enums : Enums

/-- A number or a string -/
def Json.Plain : Json → Prop
  | .integer _ => True
  | .string _ => True
  | _ => False

/-- The parser reads the numbers and strings among the members of what was dumped, and no members
that were not there. -/
structure Codec.Faithful (codec : Codec) : Prop where
  inverse : codec.enums.Inverse
  dump : ∀ j text, codec.dump j = some text → ∃ j', codec.parse text = .ok j' ∧
    (∀ name, j.find name = none → j'.find name = none) ∧
    ∀ name value, j.find name = some value → value.Plain → j'.find name = some value

/-- A connection with its parser: while it reads, the handler of the read holds it. -/
structure Peer where
  parser : Parser
  reading : Bool
  alive : Bool

/-- `held` are the requests that handlers have got. -/
structure Service (η : Type) where
  dispatcher : Dispatcher.State η
  peers : List Peer
  held : List Request

namespace Service

/-- The two forms of `Request::reply` -/
inductive Answer where
  | data (data : Json)
  | status (code : Int32) (status : String)

/-- A connection is accepted; its read completes, with a chunk or an error; its last reference is
dropped; handlers are added and removed; the strand runs a request; a handler replies to one of the
requests that it has got. -/
inductive Event (η : Type) where
  | accept
  | chunk (k : ℕ) (c : Chunk)
  | fail (k : ℕ)
  | expire (k : ℕ)
  | add (pattern : String) (handler : Option η)
  | remove (pattern : String)
  | cancel
  | exec
  | reply (i : ℕ) (answer : Answer)

/-- What is seen: the events of the parsers, how a request ends on the strand, and what is written
to its connection by a reply. -/
inductive Output (η : Type) where
  | parsed (k : ℕ) (e : Scgi.Event)
  | called (handler : η) (request : Request)
  | threw (request : Request) (what : String)
  | notFound (request : Request) (text : Option Bytes)
  | replied (request : Request) (answer : Answer) (text : Option Bytes)

/-- The event cannot happen, or a parser leaves its buffers. -/
inductive Fault where
  | disabled
  | stopped (stop : Stop)
  deriving DecidableEq, Repr

section Steps

variable {η : Type} (codec : Codec) (regex : Dispatcher.Regex)

/-- `Dispatcher::onMessage`, for a connection. A message that is no request is logged. -/
def onMessage (k : ℕ) : Dispatcher (Dispatcher.State η) where
  onMessage s msg :=
    match Request.create codec.enums codec.parse k msg with
    | .ok request => (.returned true, Dispatcher.process s request)
    | .error _ => (.returned true, s)

/-- The response of a reply. -/
def respond (request : Request) : Answer → Response
  | .data data => Response.ofData request.toRequestBase data
  | .status code status => Response.ofStatus request.toRequestBase code status

/-- `Request::reply`: the text that it writes, if the connection is still there. -/
def reply (s : Service η) (request : Request) (answer : Answer) : Option Bytes :=
  match s.peers[request.connection]? with
  | some peer =>
    if peer.alive then codec.dump ((respond request answer).toJson codec.enums) else none
  | none => none

/-- The reply of the dispatcher. -/
def missing : Answer := .status 404 "Not found"

/-- What `Dispatcher::exec` does with the request whose turn it is. -/
def exec (s : Service η) (request : Request) : Service η × List (Output η) :=
  match Dispatcher.exec regex s.dispatcher request with
  | .called handler request => ({ s with held := s.held ++ [request] }, [.called handler request])
  | .threw request what => (s, [.threw request what])
  | .notFound request => (s, [.notFound request (s.reply codec request missing)])

def step (s : Service η) : Event η → Except Fault (Service η × List (Output η))
  | .accept => .ok ({ s with peers := s.peers ++ [⟨.fresh, true, true⟩] }, [])
  | .chunk k c =>
    match s.peers[k]? with
    | none => .error .disabled
    | some peer =>
      if peer.reading then
        match peer.parser.process (onMessage codec k) s.dispatcher c with
        | .error stop => .error (.stopped stop)
        | .ok (l, ret) =>
          .ok ({ s with
              dispatcher := l.dispatcher
              peers := s.peers.set k { peer with parser := l.parser, reading := ret } },
            l.events.map (.parsed k))
      else .error .disabled
  | .fail k =>
    match s.peers[k]? with
    | none => .error .disabled
    | some peer =>
      if peer.reading then
        .ok ({ s with peers := s.peers.set k { peer with reading := false } }, [])
      else .error .disabled
  | .expire k =>
    match s.peers[k]? with
    | none => .error .disabled
    | some peer =>
      if peer.reading then .error .disabled
      else .ok ({ s with peers := s.peers.set k { peer with alive := false } }, [])
  | .add pattern handler =>
    .ok ({ s with dispatcher := Dispatcher.add s.dispatcher pattern handler }, [])
  | .remove pattern => .ok ({ s with dispatcher := Dispatcher.remove s.dispatcher pattern }, [])
  | .cancel => .ok ({ s with dispatcher := Dispatcher.cancel s.dispatcher }, [])
  | .exec =>
    match s.dispatcher.strand with
    | [] => .error .disabled
    | request :: rest =>
      .ok (exec codec regex { s with dispatcher := { s.dispatcher with strand := rest } } request)
  | .reply i answer =>
    match s.held[i]? with
    | none => .error .disabled
    | some request => .ok (s, [.replied request answer (s.reply codec request answer)])

def machine : Machine Fault (Service η) (Event η) (Output η) := ⟨step codec regex⟩

def fresh : Service η := ⟨Dispatcher.fresh, [], []⟩

end Steps

section Views

variable {η : Type} (codec : Codec)

/-- What a connection has read. -/
def streamOf (k : ℕ) (events : List (Event η)) : Bytes :=
  events.flatMap fun
    | .chunk j c => if j = k then c.bytes else []
    | _ => []

/-- What the parser of a connection has done. -/
def parsedBy (k : ℕ) (out : List (Output η)) : List Scgi.Event :=
  out.filterMap fun
    | .parsed j e => if j = k then some e else none
    | _ => none

/-- The requests among the messages of all the connections. -/
def received (out : List (Output η)) : List Request :=
  out.filterMap fun
    | .parsed k (.onMessage msg) => (Request.create codec.enums codec.parse k msg).toOption
    | _ => none

/-- The requests that have had their turn. -/
def executed (out : List (Output η)) : List Request :=
  out.filterMap fun
    | .called _ request => some request
    | .threw request _ => some request
    | .notFound request _ => some request
    | _ => none

/-- The replies that have been written to a connection. -/
def answers (k : ℕ) (out : List (Output η)) : List (Request × Answer × Bytes) :=
  out.filterMap fun
    | .notFound request (some text) =>
      if request.connection = k then some (request, missing, text) else none
    | .replied request answer (some text) =>
      if request.connection = k then some (request, answer, text) else none
    | _ => none

variable {codec}

@[simp] theorem streamOf_append (k : ℕ) (events events' : List (Event η)) :
    streamOf k (events ++ events') = streamOf k events ++ streamOf k events' :=
  List.flatMap_append

@[simp] theorem parsedBy_append (k : ℕ) (out out' : List (Output η)) :
    parsedBy k (out ++ out') = parsedBy k out ++ parsedBy k out' := List.filterMap_append

@[simp] theorem received_append (out out' : List (Output η)) :
    received codec (out ++ out') = received codec out ++ received codec out' :=
  List.filterMap_append

@[simp] theorem executed_append (out out' : List (Output η)) :
    executed (out ++ out') = executed out ++ executed out' := List.filterMap_append

@[simp] theorem answers_append (k : ℕ) (out out' : List (Output η)) :
    answers k (out ++ out') = answers k out ++ answers k out' := List.filterMap_append

end Views
section Requests

variable {enums : Enums} {parse : Bytes → Exec Json} {k : ℕ} {msg : Bytes}

theorem fromJson_uri {self r : RequestBase} {source : Json}
    (h : self.fromJson enums source = .ok r) : ∃ value, r.uri = (self.setUri value).uri := by
  unfold RequestBase.fromJson at h
  simp only [bind_ok_iff] at h
  obtain ⟨id, -, id', -, name, -, name', -, method, -, uri, -, value, -, h⟩ := h
  refine ⟨value, ?_⟩
  cases hdata : source.find "data" <;> cases hsession : source.find "sessionId" <;>
    simp only [hdata, hsession, bind_ok_iff, pure_ok, Except.ok.injEq] at h
  · rw [← h]
    rfl
  · obtain ⟨sessionId, -, rfl⟩ := h
    rfl
  · rw [← h]
    rfl
  · obtain ⟨sessionId, -, rfl⟩ := h
    rfl

theorem create_ok {r : Request} (h : Request.create enums parse k msg = .ok r) :
    r.connection = k ∧ RequestBase.Tidy r.uri.toList := by
  unfold Request.create Request.fromJson at h
  simp only [bind_ok_iff, pure_ok, Except.ok.injEq] at h
  obtain ⟨source, -, base, hbase, sender, -, sender', -, rfl⟩ := h
  obtain ⟨value, huri⟩ := fromJson_uri hbase
  refine ⟨rfl, ?_⟩
  change RequestBase.Tidy base.uri.toList
  rw [huri]
  exact RequestBase.tidy_setUri rfl value

end Requests

section Runs

variable {η : Type} {codec : Codec} {regex : Dispatcher.Regex} {s s' : Service η}
  {events : List (Event η)} {out : List (Output η)} {k : ℕ}

theorem onMessage_accepts (k : ℕ) : (onMessage (η := η) codec k).Accepts := by
  intro t payload
  cases hcreate : Request.create codec.enums codec.parse k payload <;> simp [onMessage, hcreate]

theorem foldl_onMessage (k : ℕ) (payloads : List Bytes) (t : Dispatcher.State η) :
    payloads.foldl (fun t payload => ((onMessage codec k).onMessage t payload).2) t =
      { t with strand := t.strand ++ payloads.filterMap fun payload =>
          (Request.create codec.enums codec.parse k payload).toOption } := by
  induction payloads generalizing t with
  | nil => simp
  | cons payload payloads ih =>
    rw [List.foldl_cons, ih]
    cases hcreate : Request.create codec.enums codec.parse k payload with
    | error e => simp [onMessage, hcreate, Except.toOption]
    | ok request => simp [onMessage, hcreate, Except.toOption, Dispatcher.process]

theorem parsedBy_map (j k : ℕ) (es : List Scgi.Event) :
    parsedBy j (es.map (Output.parsed (η := η) k)) = if k = j then es else [] := by
  unfold parsedBy
  rw [List.filterMap_map]
  split_ifs with h <;> simp [h]

theorem received_map (k : ℕ) (es : List Scgi.Event) :
    received codec (es.map (Output.parsed (η := η) k)) = (messages es).filterMap fun payload =>
      (Request.create codec.enums codec.parse k payload).toOption := by
  unfold received messages
  rw [List.filterMap_map, List.filterMap_filterMap]
  congr 1
  funext e
  cases e <;> rfl

theorem mem_received {r : Request} (h : r ∈ received codec out) :
    RequestBase.Tidy r.uri.toList := by
  obtain ⟨o, -, ho⟩ := List.mem_filterMap.mp h
  cases o with
  | parsed k e =>
    cases e with
    | onMessage msg =>
      cases hcreate : Request.create codec.enums codec.parse k msg with
      | error e => simp [hcreate, Except.toOption] at ho
      | ok request =>
        obtain rfl : request = r := by simpa [hcreate, Except.toOption] using ho
        exact (create_ok hcreate).2
    | close => simp at ho
  | _ => simp at ho

/-- Where the requests are: each one that has been read waits on the strand or has had its turn,
and each reply is one to a request that has had it. -/
structure Account (codec : Codec) (events : List (Event η)) (out : List (Output η))
    (s : Service η) : Prop where
  posted : executed out ++ s.dispatcher.strand = received codec out
  present : ∀ (k : ℕ) (peer : Peer), s.peers[k]? = some peer → peer.parser.Inv ∧
    ∀ rest, Parser.residual accepting (.fresh, ()) (streamOf k events ++ rest) =
      (parsedBy k out ++ (Parser.residual accepting (peer.parser, ()) rest).1,
        (Parser.residual accepting (peer.parser, ()) rest).2)
  absent : ∀ k, s.peers.length ≤ k → streamOf k events = [] ∧ parsedBy k out = []
  held : ∀ r ∈ s.held, r ∈ executed out
  answered : ∀ k, ∀ x ∈ answers k out, x.1 ∈ executed out ∧ x.1.connection = k ∧
    codec.dump ((respond x.1 x.2.1).toJson codec.enums) = some x.2.2

theorem account_fresh : Account codec [] [] (fresh (η := η)) where
  posted := rfl
  present := by simp [fresh]
  absent := by simp [streamOf, parsedBy]
  held := by simp [fresh]
  answered := by simp [answers]

theorem reply_some {r : Request} {answer : Answer} {text : Bytes}
    (h : s.reply codec r answer = some text) :
    codec.dump ((respond r answer).toJson codec.enums) = some text := by
  unfold reply at h
  cases hpeer : s.peers[r.connection]? with
  | none => simp [hpeer] at h
  | some peer =>
    simp only [hpeer] at h
    split_ifs at h
    exact h

/-- The parsers are where they were, but for new ones. -/
structure SameParsers (s s' : Service η) : Prop where
  length : s.peers.length ≤ s'.peers.length
  parser : ∀ (k : ℕ) (peer' : Peer), s'.peers[k]? = some peer' →
    (∃ peer, s.peers[k]? = some peer ∧ peer'.parser = peer.parser) ∨
      s.peers.length ≤ k ∧ peer'.parser = .fresh

theorem sameParsers_of_eq (h : s'.peers = s.peers) : SameParsers s s' where
  length := by rw [h]
  parser k peer' hpeer := .inl ⟨peer', by rwa [h] at hpeer, rfl⟩

theorem sameParsers_set {peer peer' : Peer} (hpeer : s.peers[k]? = some peer)
    (hparser : peer'.parser = peer.parser) :
    SameParsers s { s with peers := s.peers.set k peer' } where
  length := by simp
  parser j x hx := by
    by_cases hj : j = k
    · subst hj
      have hlt := (List.getElem?_eq_some_iff.mp hpeer).1
      obtain rfl : peer' = x := by simpa [List.getElem?_set_self hlt] using hx
      exact .inl ⟨peer, hpeer, hparser⟩
    · exact .inl ⟨x, by simpa [List.getElem?_set_ne (Ne.symm hj)] using hx, rfl⟩

theorem Account.feedless (h : Account codec events out s) {e : Event η} {o : List (Output η)}
    (hstream : ∀ k, streamOf k [e] = []) (hparsed : ∀ k, parsedBy k o = [])
    (hparsers : SameParsers s s')
    (hposted : executed (out ++ o) ++ s'.dispatcher.strand = received codec (out ++ o))
    (hheld : ∀ r ∈ s'.held, r ∈ executed (out ++ o))
    (hanswered : ∀ k, ∀ x ∈ answers k o, x.1 ∈ executed (out ++ o) ∧ x.1.connection = k ∧
      codec.dump ((respond x.1 x.2.1).toJson codec.enums) = some x.2.2) :
    Account codec (events ++ [e]) (out ++ o) s' where
  posted := hposted
  present := by
    intro k peer' hpeer
    rw [streamOf_append, parsedBy_append, hstream, hparsed, List.append_nil, List.append_nil]
    rcases hparsers.parser k peer' hpeer with ⟨peer, hp, hparser⟩ | ⟨hk, hfresh⟩
    · rw [hparser]
      exact h.present k peer hp
    · obtain ⟨hstream', hparsed'⟩ := h.absent k hk
      rw [hfresh, hstream', hparsed']
      exact ⟨.inr (.inl ⟨by decide, rfl⟩), fun rest => rfl⟩
  absent := by
    intro k hk
    rw [streamOf_append, parsedBy_append, hstream, hparsed, List.append_nil, List.append_nil]
    exact h.absent k (hparsers.length.trans hk)
  held := hheld
  answered := by
    intro k x hx
    rw [answers_append] at hx
    rcases List.mem_append.mp hx with hx | hx
    · obtain ⟨hexecuted, hrest⟩ := h.answered k x hx
      exact ⟨by simp [hexecuted], hrest⟩
    · exact hanswered k x hx

theorem Account.quiet (h : Account codec events out s) {e : Event η}
    (hstream : ∀ k, streamOf k [e] = []) (hparsers : SameParsers s s')
    (hstrand : s'.dispatcher.strand = s.dispatcher.strand) (hheld : s'.held = s.held) :
    Account codec (events ++ [e]) (out ++ []) s' := by
  refine h.feedless hstream (fun _ => rfl) hparsers ?_ ?_ ?_
  · rw [hstrand, List.append_nil]
    exact h.posted
  · rw [hheld, List.append_nil]
    exact h.held
  · simp [answers]

theorem Account.chunk (h : Account codec events out s) {peer : Peer}
    (hpeer : s.peers[k]? = some peer) {c : Chunk} {l : Loop (Dispatcher.State η)} {ret : Bool}
    (hprocess : peer.parser.process (onMessage codec k) s.dispatcher c = .ok (l, ret)) :
    Account codec (events ++ [.chunk k c]) (out ++ l.events.map (.parsed k))
      { s with
        dispatcher := l.dispatcher
        peers := s.peers.set k { peer with parser := l.parser, reading := ret } } := by
  obtain ⟨hinv, hsofar⟩ := h.present k peer hpeer
  obtain ⟨l', ret', hprocess', hinv', hlogged, hrest⟩ :=
    process_effect (onMessage_accepts k) hinv s.dispatcher c
  obtain ⟨rfl, rfl⟩ := Prod.mk.inj (Except.ok.inj (hprocess.symm.trans hprocess'))
  have hlt := (List.getElem?_eq_some_iff.mp hpeer).1
  have hnone : executed (l.events.map (Output.parsed (η := η) k)) = [] ∧
      ∀ j, answers j (l.events.map (Output.parsed (η := η) k)) = [] := by
    simp [executed, answers]
  refine ⟨?_, ?_, ?_, ?_, ?_⟩
  · rw [executed_append, received_append, hnone.1, received_map, ← h.posted, hlogged,
      foldl_onMessage]
    simp
  · intro j peer' hpeer'
    rw [streamOf_append, parsedBy_append, parsedBy_map]
    by_cases hj : j = k
    · subst hj
      obtain rfl : { peer with parser := l.parser, reading := ret } = peer' := by
        simpa [List.getElem?_set_self hlt] using hpeer'
      refine ⟨hinv', fun rest => ?_⟩
      have hchunk : streamOf j [.chunk (η := η) j c] = c.bytes := by simp [streamOf]
      rw [if_pos rfl, hchunk, List.append_assoc, hsofar, hrest]
      simp
    · have hchunk : streamOf j [.chunk (η := η) k c] = [] := by simp [streamOf, Ne.symm hj]
      rw [if_neg (Ne.symm hj), hchunk, List.append_nil, List.append_nil]
      exact h.present j peer' (by simpa [List.getElem?_set_ne (Ne.symm hj)] using hpeer')
  · intro j hj
    rw [List.length_set] at hj
    have hne : k ≠ j := by omega
    obtain ⟨hstream, hparsed⟩ := h.absent j hj
    rw [streamOf_append, parsedBy_append, parsedBy_map, if_neg hne, hstream, hparsed]
    simp [streamOf, hne]
  · intro r hr
    rw [executed_append, hnone.1, List.append_nil]
    exact h.held r hr
  · intro j x hx
    rw [answers_append, hnone.2, List.append_nil] at hx
    rw [executed_append, hnone.1, List.append_nil]
    exact h.answered j x hx

variable (regex) in
theorem Account.exec (h : Account codec events out s) {request : Request} {rest : List Request}
    (hwaiting : s.dispatcher.strand = request :: rest) :
    let r := Service.exec codec regex
      { s with dispatcher := { s.dispatcher with strand := rest } } request
    Account codec (events ++ [.exec]) (out ++ r.2) r.1 := by
  intro r
  have hposted := h.posted
  rw [hwaiting] at hposted
  have hturn : ∀ o : Output η, executed [o] = [request] → received codec [o] = [] →
      executed (out ++ [o]) ++ rest = received codec (out ++ [o]) := by
    intro o hexecuted hreceived
    rw [executed_append, received_append, hexecuted, hreceived, ← hposted]
    simp
  have hearlier : ∀ (o : List (Output η)) (r : Request), r ∈ s.held → r ∈ executed (out ++ o) := by
    intro o r hr
    rw [executed_append]
    exact List.mem_append_left _ (h.held r hr)
  cases hexec : Dispatcher.exec regex
      { s.dispatcher with strand := rest } request with
  | called handler request' =>
    obtain rfl : request' = request := by
      unfold Dispatcher.exec at hexec
      split at hexec <;> cases hexec
      rfl
    have hr : r = ({ s with
        dispatcher := { s.dispatcher with strand := rest }
        held := s.held ++ [request'] }, [.called handler request']) := by
      simp only [r, Service.exec, hexec]
    rw [hr]
    refine h.feedless (fun _ => rfl) (fun _ => rfl) (sameParsers_of_eq rfl) (hturn _ rfl rfl) ?_
      (by simp [answers])
    intro q hq
    rcases List.mem_append.mp hq with hq | hq
    · exact hearlier _ q hq
    · rw [List.mem_singleton.mp hq, executed_append]
      exact List.mem_append_right _ (List.mem_singleton_self _)
  | threw request' what =>
    obtain rfl : request' = request := by
      unfold Dispatcher.exec at hexec
      split at hexec <;> cases hexec
      rfl
    have hr : r = ({ s with dispatcher := { s.dispatcher with strand := rest } },
        [.threw request' what]) := by
      simp only [r, Service.exec, hexec]
    rw [hr]
    exact h.feedless (fun _ => rfl) (fun _ => rfl) (sameParsers_of_eq rfl) (hturn _ rfl rfl)
      (hearlier _) (by simp [answers])
  | notFound request' =>
    obtain rfl : request' = request := by
      unfold Dispatcher.exec at hexec
      split at hexec <;> cases hexec
      rfl
    generalize htext : Service.reply codec
      { s with dispatcher := { s.dispatcher with strand := rest } } request' missing = text
    have hr : r = ({ s with dispatcher := { s.dispatcher with strand := rest } },
        [.notFound request' text]) := by
      simp only [r, Service.exec, hexec, htext]
    rw [hr]
    refine h.feedless (fun _ => rfl) (fun _ => rfl) (sameParsers_of_eq rfl) (hturn _ rfl rfl)
      (hearlier _) ?_
    intro j x hx
    cases text with
    | none => simp [answers] at hx
    | some text =>
      obtain ⟨hj, rfl⟩ : request'.connection = j ∧ (request', missing, text) = x := by
        simpa [answers, eq_comm] using hx
      refine ⟨?_, hj, reply_some htext⟩
      rw [executed_append]
      exact List.mem_append_right _ (List.mem_singleton_self _)

theorem Account.reply (h : Account codec events out s) {i : ℕ} {request : Request}
    (hi : s.held[i]? = some request) (answer : Answer) :
    Account codec (events ++ [.reply i answer])
      (out ++ [.replied request answer (s.reply codec request answer)]) s := by
  generalize htext : s.reply codec request answer = text
  have hexecuted : executed (out ++ [Output.replied request answer text]) = executed out := by
    simp [executed]
  refine h.feedless (fun _ => rfl) (fun _ => rfl) (sameParsers_of_eq rfl) ?_ ?_ ?_
  · rw [hexecuted, h.posted]
    simp [received]
  · rw [hexecuted]
    exact h.held
  · intro j x hx
    rw [hexecuted]
    cases text with
    | none => simp [answers] at hx
    | some text =>
      obtain ⟨hj, rfl⟩ : request.connection = j ∧ (request, answer, text) = x := by
        simpa [answers, eq_comm] using hx
      exact ⟨h.held request (List.mem_of_getElem? hi), hj, reply_some htext⟩

theorem Account.step (h : Account codec events out s) {e : Event η} {o : List (Output η)}
    (hstep : Service.step codec regex s e = .ok (s', o)) :
    Account codec (events ++ [e]) (out ++ o) s' := by
  cases e with
  | accept =>
    obtain ⟨rfl, rfl⟩ := Prod.mk.inj (Except.ok.inj hstep)
    refine h.quiet (fun _ => rfl) ⟨by simp, ?_⟩ rfl rfl
    intro j peer hpeer
    by_cases hj : j < s.peers.length
    · exact .inl ⟨peer, by simpa [List.getElem?_append_left hj] using hpeer, rfl⟩
    · rw [List.getElem?_append_right (by omega)] at hpeer
      obtain ⟨-, rfl⟩ : j - s.peers.length = 0 ∧ (⟨.fresh, true, true⟩ : Peer) = peer := by
        simpa [List.getElem?_singleton] using hpeer
      exact .inr ⟨by omega, rfl⟩
  | chunk k c =>
    cases hpeer : s.peers[k]? with
    | none => simp [Service.step, hpeer] at hstep
    | some peer =>
      by_cases hreading : peer.reading = true
      · cases hprocess : peer.parser.process (onMessage codec k) s.dispatcher c with
        | error stop => simp [Service.step, hpeer, hreading, hprocess] at hstep
        | ok r =>
          simp only [Service.step, hpeer, hreading, hprocess, if_true, Except.ok.injEq,
            Prod.mk.injEq] at hstep
          obtain ⟨rfl, rfl⟩ := hstep
          exact h.chunk hpeer hprocess
      · simp [Service.step, hpeer, hreading] at hstep
  | fail k =>
    cases hpeer : s.peers[k]? with
    | none => simp [Service.step, hpeer] at hstep
    | some peer =>
      by_cases hreading : peer.reading = true
      · simp only [Service.step, hpeer, hreading, if_true, Except.ok.injEq, Prod.mk.injEq] at hstep
        obtain ⟨rfl, rfl⟩ := hstep
        exact h.quiet (fun _ => rfl) (sameParsers_set hpeer rfl) rfl rfl
      · simp [Service.step, hpeer, hreading] at hstep
  | expire k =>
    cases hpeer : s.peers[k]? with
    | none => simp [Service.step, hpeer] at hstep
    | some peer =>
      by_cases hreading : peer.reading = true
      · simp [Service.step, hpeer, hreading] at hstep
      · simp only [Service.step, hpeer, hreading] at hstep
        cases hstep
        exact h.quiet (fun _ => rfl) (sameParsers_set hpeer rfl) rfl rfl
  | add pattern handler =>
    obtain ⟨rfl, rfl⟩ := Prod.mk.inj (Except.ok.inj hstep)
    refine h.quiet (fun _ => rfl) (sameParsers_of_eq rfl) ?_ rfl
    cases handler <;> rfl
  | remove pattern =>
    obtain ⟨rfl, rfl⟩ := Prod.mk.inj (Except.ok.inj hstep)
    exact h.quiet (fun _ => rfl) (sameParsers_of_eq rfl) rfl rfl
  | cancel =>
    obtain ⟨rfl, rfl⟩ := Prod.mk.inj (Except.ok.inj hstep)
    exact h.quiet (fun _ => rfl) (sameParsers_of_eq rfl) rfl rfl
  | exec =>
    cases hwaiting : s.dispatcher.strand with
    | nil => simp [Service.step, hwaiting] at hstep
    | cons request rest =>
      simp only [Service.step, hwaiting, Except.ok.injEq] at hstep
      have hexec := h.exec regex hwaiting
      simp only [hstep] at hexec
      exact hexec
  | reply i answer =>
    cases hi : s.held[i]? with
    | none => simp [Service.step, hi] at hstep
    | some request =>
      simp only [Service.step, hi, Except.ok.injEq, Prod.mk.injEq] at hstep
      obtain ⟨rfl, rfl⟩ := hstep
      exact h.reply hi answer

theorem run_account (hrun : (machine codec regex).run fresh events = .ok (s, out)) :
    Account codec events out s :=
  (machine codec regex).run_invariant (Account codec) (fun _ _ _ _ _ _ h hstep => h.step hstep)
    account_fresh hrun

theorem filter_received (k : ℕ) (out : List (Output η)) :
    (received codec out).filter (fun r => r.connection = k) =
      (messages (parsedBy k out)).filterMap fun payload =>
        (Request.create codec.enums codec.parse k payload).toOption := by
  induction out with
  | nil => rfl
  | cons o out ih =>
    have hsplit : received codec (o :: out) = received codec [o] ++ received codec out :=
      received_append [o] out
    have hparsed : parsedBy k (o :: out) = parsedBy k [o] ++ parsedBy k out :=
      parsedBy_append k [o] out
    rw [hsplit, hparsed, List.filter_append, messages_append, List.filterMap_append, ih]
    congr 1
    cases o with
    | parsed j e =>
      cases e with
      | close => by_cases hj : j = k <;> simp [received, parsedBy, messages, hj]
      | onMessage msg =>
        cases hcreate : Request.create codec.enums codec.parse j msg with
        | error e =>
          by_cases hj : j = k
          · subst hj
            simp [received, parsedBy, messages, hcreate, Except.toOption]
          · simp [received, parsedBy, messages, hcreate, Except.toOption, hj]
        | ok request =>
          have hconnection := (create_ok hcreate).1
          by_cases hj : j = k
          · subst hj
            simp [received, parsedBy, messages, hcreate, Except.toOption, hconnection]
          · simp [received, parsedBy, messages, hcreate, Except.toOption, hconnection, hj]
    | _ => rfl

theorem Account.parsed (h : Account codec events out s) (k : ℕ) :
    parsedBy k out = (reference accepting () (streamOf k events)).events := by
  have hstart : Parser.residual accepting (.fresh, ()) (streamOf k events) =
      ((reference accepting () (streamOf k events)).events,
        (reference accepting () (streamOf k events)).failed) := by
    rw [Parser.residual_alive accepting rfl, Loop.resume_next accepting rfl]
  cases hpeer : s.peers[k]? with
  | none =>
    obtain ⟨hstream, hparsed⟩ := h.absent k (List.getElem?_eq_none_iff.mp hpeer)
    rw [hstream, hparsed, reference_short accepting () (by simp)]
    rfl
  | some peer =>
    obtain ⟨hinv, hrest⟩ := h.present k peer hpeer
    have hall := hrest []
    rw [List.append_nil, hstart, Parser.residual_nil accepting hinv] at hall
    simpa using (congrArg Prod.fst hall).symm

variable (codec regex) in
/-- A message that arrives in one chunk, with its header, as the first one of its connection. -/
theorem step_first_message {peer : Peer} (hpeer : s.peers[k]? = some peer)
    (hreading : peer.reading = true) (hfresh : peer.parser = .fresh) {msg : Bytes}
    (hmsg : Deliverable msg) (port : ℕ) :
    ∃ parser ret, Service.step codec regex s (.chunk k (.full (message msg port).bytes)) =
      .ok ({ s with
          dispatcher := { s.dispatcher with strand := s.dispatcher.strand ++
            (Request.create codec.enums codec.parse k msg).toOption.toList }
          peers := s.peers.set k { peer with parser := parser, reading := ret } },
        [.parsed k (.onMessage msg)]) := by
  have hinv : peer.parser.Inv := by
    rw [hfresh]
    exact .inr (.inl ⟨by decide, rfl⟩)
  have haccept : (onMessage (η := η) codec k).Accepts := onMessage_accepts k
  obtain ⟨l, ret, hprocess, hinv', hlogged, hrest⟩ :=
    process_effect haccept hinv s.dispatcher (.full (message msg port).bytes)
  have hevents : l.events = [.onMessage msg] := by
    have hall := hrest []
    have hsize : msg.length < 2 ^ 32 := by
      have := hmsg.2
      omega
    have hread := reference_message accepting accepts_accepting () hsize port []
    have hend : reference accepting (accepting.onMessage () msg).2 [] = ⟨[], false⟩ :=
      reference_short accepting _ (by simp)
    rw [if_pos hmsg, hend, List.append_nil] at hread
    have hbytes : (Chunk.full (message msg port).bytes).bytes = (message msg port).bytes := by
      simp [Chunk.bytes, Chunk.full]
    rw [List.append_nil, hbytes, hfresh, Parser.residual_alive accepting rfl,
      Loop.resume_next accepting rfl, hread, Parser.residual_nil accepting hinv'] at hall
    simpa [Outcome.events, Outcome.cons] using (congrArg Prod.fst hall).symm
  refine ⟨l.parser, ret, ?_⟩
  have hstate : l.dispatcher = { s.dispatcher with strand := s.dispatcher.strand ++
      (Request.create codec.enums codec.parse k msg).toOption.toList } := by
    rw [hlogged, hevents, foldl_onMessage]
    cases hcreate : Request.create codec.enums codec.parse k msg <;>
      simp [messages, hcreate, Except.toOption]
  simp only [Service.step, hpeer, hreading, hprocess, if_true, hstate, hevents, List.map_cons,
    List.map_nil]

end Runs

section Replies

variable {η : Type} {codec : Codec} {regex : Dispatcher.Regex} {s : Service η}
  {events : List (Event η)} {out : List (Output η)}

theorem find_respond (codec : Codec) (request : Request) (answer : Answer)
    (htidy : RequestBase.Tidy request.uri.toList) :
    let response := respond request answer
    let j := response.toJson codec.enums
    j.find "id" = some (.integer request.id.toNat) ∧ j.find "uri" = some (.string request.uri) ∧
    j.find "method" = some (.string (codec.enums.toString methodMap request.method)) ∧
    j.find "code" = some (.integer response.code.toInt) ∧
    j.find "status" = some (.string response.status) ∧ j.find "sessionId" = none := by
  intro response j
  have hbase : response.id = request.id ∧ response.uri = request.uri ∧
      response.method = request.method ∧ response.sessionId = "" := by
    have huri : (({ id := request.id } : RequestBase).setUri request.uri).uri = request.uri := by
      rw [RequestBase.setUri_tidy _ htidy, String.empty_append]
    cases answer with
    | data data => exact ⟨rfl, huri, rfl, rfl⟩
    | status code status => exact ⟨rfl, huri, rfl, rfl⟩
  obtain ⟨hid, huri, hmethod, hsession⟩ := hbase
  obtain ⟨h₁, h₂, h₃⟩ := Response.find_toJson_base codec.enums response.toRequestBase
  have h₄ := Response.find_toJson_sessionId codec.enums response.toRequestBase
  have hsame : ∀ name, name ≠ "code" → name ≠ "status" →
      j.find name = (response.toRequestBase.toJson codec.enums).find name :=
    fun name => Response.find_toJson codec.enums response
  refine ⟨?_, ?_, ?_, ?_, ?_, ?_⟩
  · rw [hsame _ (by decide) (by decide), h₁, hid]
  · rw [hsame _ (by decide) (by decide), h₂, huri]
  · rw [hsame _ (by decide) (by decide), h₃, hmethod]
  · simp (disch := decide) [j, Response.toJson, Json.find_set_ne]
  · simp [j, Response.toJson]
  · rw [hsame _ (by decide) (by decide), h₄, hsession]
    simp

/-- A peer without a URI of its own reads what the response is about. -/
theorem reads_response (hcodec : codec.Faithful) {request : Request} {answer : Answer}
    (htidy : RequestBase.Tidy request.uri.toList) {text : Bytes}
    (hdump : codec.dump ((respond request answer).toJson codec.enums) = some text)
    {blank : Response} (hblank : blank.uri = "") :
    ∃ read, (codec.parse text >>= blank.fromJson codec.enums) = .ok read ∧
      read.id = request.id ∧ read.method = request.method ∧ read.uri = request.uri ∧
      read.code = (respond request answer).code ∧
      read.status = (respond request answer).status := by
  obtain ⟨j, hparse, habsent, hpresent⟩ := hcodec.dump _ _ hdump
  obtain ⟨hid, huri, hmethod, hcode, hstatus, hsession⟩ :=
    find_respond codec request answer htidy
  have hread := RequestBase.setUri_tidy blank.toRequestBase htidy
  rw [hblank, String.empty_append] at hread
  simp only [RequestBase.setUri] at hread
  rw [hparse, ok_bind]
  unfold Response.fromJson RequestBase.fromJson
  rw [Json.get_of_find (hpresent _ _ hid trivial), Json.get_of_find (hpresent _ _ huri trivial),
    Json.get_of_find (hpresent _ _ hmethod trivial), Json.get_of_find (hpresent _ _ hcode trivial),
    Json.get_of_find (hpresent _ _ hstatus trivial), habsent _ hsession]
  refine ⟨{
    id := request.id, method := request.method, uri := request.uri
    sessionId := "", data := (j.find "data").getD .null
    code := (respond request answer).code, status := (respond request answer).status }, ?_,
    rfl, rfl, rfl, rfl, rfl⟩
  cases hdata : j.find "data" <;>
    simp [Json.toInt, Json.getString, hcodec.inverse request.method, Response.ofInt_toNat, hread,
      RequestBase.setUri]

/-- The texts of a request and of the reply to it. -/
def requestText : Bytes :=
  "\x7b\"from\":\"web\",\"id\":7,\"method\":\"GET\",\"uri\":\"/a\"\x7d".toUTF8.data.toList

def responseText : Bytes :=
  ("\x7b\"code\":404,\"id\":7,\"method\":\"GET\"," ++
    "\"status\":\"Not found\",\"uri\":\"/a\"\x7d").toUTF8.data.toList

/-- A library that knows these two texts. -/
def smallCodec : Codec where
  parse msg :=
    if msg = requestText then .ok (.object [("from", .string "web"), ("id", .integer 7),
      ("method", .string "GET"), ("uri", .string "/a")])
    else if msg = responseText then .ok (.object [("status", .string "Not found"),
      ("code", .integer 404), ("method", .string "GET"), ("uri", .string "/a"), ("id", .integer 7)])
    else .error (.exception "parse error")
  dump
    | .object [("status", .string "Not found"), ("code", .integer 404), ("method", .string "GET"),
        ("uri", .string "/a"), ("id", .integer 7)] => some responseText
    | _ => none
  enums := Response.tableEnums

theorem faithful_smallCodec : smallCodec.Faithful where
  inverse := Response.inverse_tableEnums
  dump := by
    intro j text h
    simp only [smallCodec] at h
    split at h
    · obtain rfl : responseText = text := by simpa using h
      have hne : responseText ≠ requestText := by decide
      refine ⟨_, ?_, fun _ h => h, fun _ _ h _ => h⟩
      simp only [smallCodec, if_neg hne, if_true]
    · cases h

theorem run_smallCodec : ∃ s out,
    (machine smallCodec fun _ _ => .ok false).run (fresh (η := Empty))
      [.accept, .chunk 0 (.full (message requestText 0).bytes), .exec] = .ok (s, out) ∧
    answers 0 out =
      [({ id := 7, method := .kGET, uri := "/a", connection := 0, sender := "web" }, missing,
        responseText)] := by
  have hcreate : Request.create smallCodec.enums smallCodec.parse 0 requestText =
      .ok { id := 7, method := .kGET, uri := "/a", connection := 0, sender := "web" } := by rfl
  have hmessage : Deliverable requestText := by decide
  have hpeer : (⟨Dispatcher.fresh, [⟨.fresh, true, true⟩], []⟩ : Service Empty).peers[0]? =
      some ⟨.fresh, true, true⟩ := rfl
  obtain ⟨parser, ret, hstep⟩ :=
    step_first_message smallCodec (fun _ _ => .ok false) hpeer rfl rfl hmessage 0
  rw [hcreate] at hstep
  refine ⟨_, _, (machine _ _).run_cons rfl ((machine _ _).run_cons hstep
    ((machine _ _).run_singleton_ok_iff.mpr rfl)), rfl⟩

/-- However the streams of the connections are cut and mixed with each other and with the work of
the strand: each message that is a request has its turn once, in the order in which the messages
came; the messages of a connection are the ones that the reference decoder finds in its stream. -/
theorem requests_executed_once (hrun : (machine codec regex).run fresh events = .ok (s, out)) :
    executed out ++ s.dispatcher.strand = received codec out ∧
    ∀ k, parsedBy k out = (reference accepting () (streamOf k events)).events ∧
      (received codec out).filter (fun r => r.connection = k) =
        (reference accepting () (streamOf k events)).payloads.filterMap fun payload =>
          (Request.create codec.enums codec.parse k payload).toOption := by
  have h := run_account hrun
  refine ⟨h.posted, fun k => ⟨h.parsed k, ?_⟩⟩
  rw [filter_received, h.parsed k]
  congr 1
  unfold messages Outcome.events
  rw [List.filterMap_append]
  split_ifs <;> simp [List.filterMap_map]

/-- The request is read. -/
theorem requests_executed_once_one : ∃ s out,
    (machine smallCodec fun _ _ => .ok false).run (fresh (η := Empty))
      [.accept, .chunk 0 (.full (message requestText 0).bytes), .exec] = .ok (s, out) ∧
    parsedBy 0 out = (reference accepting () (message requestText 0).bytes).events := by
  obtain ⟨s, out, hrun, -⟩ := run_smallCodec
  obtain ⟨-, hparsed⟩ := requests_executed_once hrun
  refine ⟨s, out, hrun, (hparsed 0).1.trans ?_⟩
  simp [streamOf, Chunk.bytes, Chunk.full]

/-- What the peer of a connection reads, in whatever chunks, if it gets what has been written,
accepts every message, and no response has the 4 GiB that a header cannot tell: each response of at
most 1 MiB, in order. Each one, read into an object without a URI, answers a request of this
connection that has had its turn, with the id, the method and the URI of the request, and the code
and status of the reply; a request without a handler is answered in this way with 404. -/
theorem peer_reads_responses (hcodec : codec.Faithful)
    (hrun : (machine codec regex).run fresh events = .ok (s, out)) (k : ℕ) {δ : Type}
    {d : Dispatcher δ} (haccept : d.Accepts) (t : δ) (port : ℕ)
    (hsize : ∀ x ∈ answers k out, x.2.2.length < 2 ^ 32) {chunks : List Chunk}
    (hchunks : chunks.flatMap Chunk.bytes =
      (answers k out).flatMap fun x => (message x.2.2 port).bytes) :
    (∃ p t', (Parser.machine d).run (Parser.fresh, t) chunks = .ok ((p, t'),
      ((answers k out).filter fun x => Deliverable x.2.2).map fun x => .onMessage x.2.2)) ∧
    ∀ x ∈ answers k out, x.1 ∈ executed out ∧ x.1.connection = k ∧
      ∀ blank : Response, blank.uri = "" →
        ∃ read, (codec.parse x.2.2 >>= blank.fromJson codec.enums) = .ok read ∧
          read.id = x.1.id ∧ read.method = x.1.method ∧ read.uri = x.1.uri ∧
          read.code = (respond x.1 x.2.1).code ∧ read.status = (respond x.1 x.2.1).status := by
  have h := run_account hrun
  constructor
  · obtain ⟨p, t', hread, -⟩ := Parser.run_fresh d t chunks
    have hframes : reference d t (chunks.flatMap Chunk.bytes) =
        ⟨((answers k out).map fun x => x.2.2).filter Deliverable, false⟩ := by
      have hpayloads : ((answers k out).flatMap fun x => (message x.2.2 port).bytes) =
          ((answers k out).map fun x => x.2.2).flatMap fun text => (message text port).bytes := by
        rw [List.flatMap_map]
      rw [hchunks, hpayloads]
      refine reference_messages d haccept port _ t ?_
      intro text htext
      obtain ⟨x, hx, rfl⟩ := List.mem_map.mp htext
      exact hsize x hx
    refine ⟨p, t', ?_⟩
    rw [hread, hframes, List.filter_map]
    simp [Outcome.events, Function.comp_def]
  · intro x hx
    obtain ⟨hexecuted, hconnection, hdump⟩ := h.answered k x hx
    have hreceived : x.1 ∈ received codec out := by
      rw [← h.posted]
      exact List.mem_append_left _ hexecuted
    exact ⟨hexecuted, hconnection,
      fun blank hblank => reads_response hcodec (mem_received hreceived) hdump hblank⟩

/-- The response to it is read. -/
theorem peer_reads_responses_one : ∃ p t',
    (Parser.machine accepting).run (Parser.fresh, ()) [.full (message responseText 0).bytes] =
      .ok ((p, t'), [.onMessage responseText]) := by
  obtain ⟨s, out, hrun, hanswers⟩ := run_smallCodec
  have hchunks : [Chunk.full (message responseText 0).bytes].flatMap Chunk.bytes =
      (answers 0 out).flatMap fun x => (message x.2.2 0).bytes := by
    simp [hanswers, Chunk.bytes, Chunk.full]
  obtain ⟨⟨p, t', hread⟩, -⟩ := peer_reads_responses faithful_smallCodec hrun 0 accepts_accepting ()
    0 (by rw [hanswers]; decide) hchunks
  refine ⟨p, t', ?_⟩
  rw [hread, hanswers]
  rfl

end Replies

end Service
end NetComponents.Scgi
