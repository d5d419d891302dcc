import NetComponents.Library.Machine
import NetComponents.Pcap.Parsers

/-!
# Capturing frames

`Capture::read` waits for the descriptor of a live capture, or for a timer where the capture is a
file, and `Capture::process` then asks libpcap for frames until there is none or the callback has
had enough. `Sniffer::read` passes a callback that parses each frame and announces its packets. The
results of `pcap_next_ex` are an input of the model. A run ends where a parser looks outside of a
frame.
-/

namespace NetComponents.Pcap

open Library

/-- The error codes that the callback is called with. -/
inductive CaptureError where
  | operationAborted
  | eof
  | brokenPipe
  | other (code : ℕ)
  deriving DecidableEq, Repr

/-- What `pcap_next_ex` returns: `-2`, `0`, `1`, or another value, for which it may not have set
the packet header. -/
inductive NextEx where
  | eof (ts : Timeval)
  | nothing
  | packet (data : Bytes) (ts : Timeval)
  | failed (hdr : Option (Bytes × Timeval))
  deriving DecidableEq, Repr

/-- `Capture::callback_t`: what it returns, and what it does to the state that it has captured. -/
abbrev Capture.Callback (σ ω : Type) :=
  σ → Option CaptureError → Bytes → Timeval → Bool × σ × List ω

namespace Capture

variable {σ ω : Type} (cb : Callback σ ω)

/-- The loop of `process`, over the results of `pcap_next_ex`. Behind them it has nothing. -/
def loop (s : σ) : List NextEx → Bool × σ × List ω
  | [] => (true, s, [])
  | .eof ts :: _ => (false, (cb s (some .eof) [] ts).2)
  | .nothing :: _ => (true, s, [])
  | .packet data ts :: next =>
    let (ret, s', out) := cb s none data ts
    if ret then
      let (ret', t, rest) := loop s' next
      (ret', t, out ++ rest)
    else (false, s', out)
  | .failed none :: _ => (false, s, [])
  | .failed (some (data, ts)) :: next =>
    let (ret, s', out) := cb s (some .brokenPipe) data ts
    if ret then
      let (ret', t, rest) := loop s' next
      (ret', t, out ++ rest)
    else (false, s', out)

/-- `process`. The time `now` is the one of `gettimeofday`. -/
def process (s : σ) (error : Option CaptureError) (now : Timeval) (next : List NextEx) :
    Bool × σ × List ω :=
  match error with
  | some e => cb s (some e) [] now
  | none => loop cb s next

end Capture

/-- An `IParser`, which may keep a state of its own, may throw, and may look outside a frame. -/
structure IParser (τ : Type) where
  packets : τ → Bytes → Timeval → τ × Exec (List Packet)

namespace IParser

variable {τ : Type} (parser : IParser τ)

/-- What one frame gives: nothing if the parser throws. -/
def frame (t : τ) (x : Bytes × Timeval) : List Packet :=
  match (parser.packets t x.1 x.2).2 with
  | .ok packets => packets
  | .error _ => []

/-- For each frame of a list the parser returns or throws. -/
def stays (t : τ) : List (Bytes × Timeval) → Bool
  | [] => true
  | x :: frames =>
    match parser.packets t x.1 x.2 with
    | (t', .ok _) | (t', .error (.exception _)) => stays t' frames
    | _ => false

/-- The packets of a list of frames, and the state behind them. -/
def all (t : τ) : List (Bytes × Timeval) → τ × List Packet
  | [] => (t, [])
  | x :: frames =>
    let r := all (parser.packets t x.1 x.2).1 frames
    (r.1, parser.frame t x ++ r.2)

theorem all_append (t : τ) (xs ys : List (Bytes × Timeval)) :
    parser.all t (xs ++ ys) =
      ((parser.all (parser.all t xs).1 ys).1,
        (parser.all t xs).2 ++ (parser.all (parser.all t xs).1 ys).2) := by
  induction xs generalizing t with
  | nil => rfl
  | cons x xs ih => simp [all, ih]

end IParser

/-- The operation that `Capture::read` has started. Its handler is queued when the descriptor is
ready or the timer expires, and with `operation_aborted` when the descriptor is released or the
timer is destroyed before. -/
inductive Reading where
  | none
  | pending
  | queued
  | aborted
  deriving DecidableEq, Repr

/-- A `grabber::Sniffer` with its `Capture`, and the state of its parser. -/
structure Sniffer (τ : Type) where
  offline : Bool
  reading : Reading
  parser : τ
  destroyed : Bool
  deriving DecidableEq, Repr

namespace Sniffer

/-- The operation completes; its handler runs, and `pcap_next_ex` gives these results; the sniffer
is destroyed; the handler of an operation that was aborted runs; the handler that was queued when
the sniffer was destroyed runs. -/
inductive Event where
  | complete
  | ready (error : Option CaptureError) (now : Timeval) (next : List NextEx)
  | destroy
  | aborted
  | late (error : Option CaptureError)
  deriving DecidableEq, Repr

/-- An emission of `notify()` or `fail()`, or a handler uses a sniffer that is destroyed. -/
inductive Output where
  | notified (packet : Packet)
  | failed (error : CaptureError)
  | touched
  deriving DecidableEq, Repr

/-- There is no such operation; the parser looks outside a frame. -/
inductive Fault where
  | disabled
  | undefined
  deriving DecidableEq, Repr

/-- The frames among the results of `pcap_next_ex` that the loop reaches. -/
def frames : List NextEx → List (Bytes × Timeval)
  | .packet data ts :: next => (data, ts) :: frames next
  | _ => []

/-- The frames that a completion reads. -/
def read : Event → List (Bytes × Timeval)
  | .ready none _ next => frames next
  | _ => []

section Steps

variable {τ : Type} (parser : IParser τ)

/-- `process`: the packets of a frame are announced one by one. An exception of the parser, or of
a slot of the signal, is caught. -/
def process (t : τ) (data : Bytes) (ts : Timeval) : τ × List Output :=
  let (t', result) := parser.packets t data ts
  match result with
  | .ok packets => (t', packets.map .notified)
  | .error _ => (t', [])

/-- The callback that `read` passes to the capture. -/
def onRead : Capture.Callback τ Output := fun t error data ts =>
  match error with
  | none => (true, process parser t data ts)
  | some .operationAborted => (false, t, [])
  | some .eof => (false, t, [.failed .eof])
  | some e => (false, t, [.failed e])

/-- The constructor, which calls `read`. -/
def fresh (offline : Bool) (t : τ) : Sniffer τ := ⟨offline, .pending, t, false⟩

/-- The destructor. It aborts a wait that is going on. -/
def delete (s : Sniffer τ) : Sniffer τ :=
  { s with reading := if s.reading = .pending then .aborted else s.reading, destroyed := true }

/-- The handler of the wait for the descriptor. -/
def onStream (s : Sniffer τ) (error : Option CaptureError) (now : Timeval) (next : List NextEx) :
    Sniffer τ × List Output :=
  let (ret, t, out) := Capture.process (onRead parser) s.parser error now next
  ({ s with reading := if ret then .pending else .none, parser := t }, out)

/-- The handler of the timer. It destroys the timer when it has run, and so aborts the wait that
it has started. -/
def onTimer (s : Sniffer τ) (error : Option CaptureError) (now : Timeval) (next : List NextEx) :
    Sniffer τ × List Output :=
  match error with
  | some _ => ({ s with reading := .none }, [])
  | none =>
    let (ret, t, out) := Capture.process (onRead parser) s.parser none now next
    ({ s with reading := if ret then .aborted else .none, parser := t }, out)

/-- The handler uses the sniffer although it is destroyed. One without an error calls `process`,
and for a stream the callback prints the name of the sniffer, or calls `fail()`. -/
def uses (debug offline : Bool) : Option CaptureError → Bool
  | none => true
  | some .operationAborted => !offline && debug
  | some _ => !offline

def step (debug : Bool) (s : Sniffer τ) : Event → Except Fault (Sniffer τ × List Output)
  | .complete =>
    if s.reading = .pending then .ok ({ s with reading := .queued }, []) else .error .disabled
  | .ready error now next =>
    if s.reading = .queued ∧ s.destroyed = false then
      if parser.stays s.parser (read (.ready error now next)) then
        .ok (if s.offline then onTimer parser s error now next
          else onStream parser s error now next)
      else .error .undefined
    else .error .disabled
  | .destroy =>
    if s.destroyed then .error .disabled else .ok (s.delete, [])
  | .aborted =>
    if s.reading = .aborted then
      .ok ({ s with reading := .none },
        if s.destroyed && uses debug s.offline (some .operationAborted) then [.touched] else [])
    else .error .disabled
  | .late error =>
    if s.reading = .queued ∧ s.destroyed = true then
      -- what follows a use of the destroyed sniffer is not modelled
      .ok ({ s with reading := .none }, if uses debug s.offline error then [.touched] else [])
    else .error .disabled

def machine (debug : Bool) : Machine Fault (Sniffer τ) Event Output := ⟨step parser debug⟩

end Steps

/-- How the loop comes to its end. -/
inductive Ending where
  | waits
  | fails (error : CaptureError)
  | silent
  deriving DecidableEq, Repr

def ending : List NextEx → Ending
  | [] => .waits
  | .eof _ :: _ => .fails .eof
  | .nothing :: _ => .waits
  | .packet _ _ :: next => ending next
  | .failed none :: _ => .silent
  | .failed (some _) :: _ => .fails .brokenPipe

/-- What is announced at that end. -/
def Ending.failures : Ending → List CaptureError
  | .fails e => [e]
  | _ => []

/-- What a completion announces besides packets. -/
def errors (offline : Bool) : Event → List CaptureError
  | .ready none _ next => (ending next).failures
  | .ready (some .operationAborted) _ _ => []
  | .ready (some e) _ _ => if offline then [] else [e]
  | _ => []

/-- The sniffer reads on behind this event. -/
def Continues (offline : Bool) : Event → Prop
  | .complete => True
  | .ready none _ next => offline = false ∧ ending next = .waits
  | _ => False

instance (offline : Bool) : DecidablePred (Continues offline) := fun e =>
  match e with
  | .complete => inferInstanceAs (Decidable True)
  | .ready none _ _ => inferInstanceAs (Decidable (_ ∧ _))
  | .ready (some _) _ _ => inferInstanceAs (Decidable False)
  | .destroy => inferInstanceAs (Decidable False)
  | .aborted => inferInstanceAs (Decidable False)
  | .late _ => inferInstanceAs (Decidable False)

/-- What may still come when the sniffer does not read any more. -/
def Event.Over : Event → Prop
  | .destroy | .aborted | .late _ => True
  | _ => False

/-- A wait is going on, or its handler is queued and will find the sniffer. -/
def Reads {τ : Type} (s : Sniffer τ) : Prop :=
  s.reading = .pending ∨ s.reading = .queued ∧ s.destroyed = false

def notifications (out : List Output) : List Packet :=
  out.filterMap fun
    | .notified p => some p
    | _ => none

def failures (out : List Output) : List CaptureError :=
  out.filterMap fun
    | .failed e => some e
    | _ => none

section Loop

variable {τ : Type} (parser : IParser τ)

theorem process_eq (t : τ) (data : Bytes) (ts : Timeval) :
    process parser t data ts =
      ((parser.packets t data ts).1, (parser.frame t (data, ts)).map .notified) := by
  unfold process IParser.frame
  obtain ⟨t', result⟩ := parser.packets t data ts
  cases result with
  | ok packets => rfl
  | error what => rfl

/-- The loop parses the frames in order, up to the first result that is no frame. -/
theorem loop_eq (t : τ) (next : List NextEx) :
    Capture.loop (onRead parser) t next =
      (decide (ending next = .waits), (parser.all t (frames next)).1,
        (parser.all t (frames next)).2.map .notified ++ (ending next).failures.map .failed) := by
  induction next generalizing t with
  | nil => rfl
  | cons r next ih =>
    cases r with
    | eof ts => rfl
    | nothing => rfl
    | packet data ts =>
      simp only [Capture.loop, onRead, process_eq, ih, if_true, frames, ending, IParser.all,
        List.map_append, List.append_assoc]
      rfl
    | failed hdr =>
      cases hdr with
      | none => rfl
      | some hdr => rfl

end Loop

@[simp] theorem notifications_append (out out' : List Output) :
    notifications (out ++ out') = notifications out ++ notifications out' :=
  List.filterMap_append

@[simp] theorem failures_append (out out' : List Output) :
    failures (out ++ out') = failures out ++ failures out' := List.filterMap_append

@[simp] theorem notifications_notified (packets : List Packet) :
    notifications (packets.map .notified) = packets := by
  simp [notifications]

@[simp] theorem notifications_failed (errors : List CaptureError) :
    notifications (errors.map .failed) = [] := by
  simp [notifications]

@[simp] theorem failures_notified (packets : List Packet) :
    failures (packets.map .notified) = [] := by
  simp [failures]

@[simp] theorem failures_failed (errors : List CaptureError) :
    failures (errors.map .failed) = errors := by
  simp [failures]

/-- An event that ends the reading without an announcement. -/
def Silent (offline : Bool) : Event → Prop
  | .ready none _ next => ending next = .silent ∨ offline = true ∧ ending next = .waits
  | .ready (some e) _ _ => offline = true ∨ e = .operationAborted
  | .destroy => True
  | _ => False

theorem Continues.quiet {offline : Bool} {e : Event} (h : Continues offline e) :
    errors offline e = [] ∧ ¬Silent offline e := by
  cases e with
  | complete => exact ⟨rfl, id⟩
  | ready error now next =>
    cases error with
    | none =>
      obtain ⟨hoffline, hending⟩ := h
      simp [errors, Silent, Ending.failures, hending, hoffline]
    | some e => exact h.elim
  | destroy => exact h.elim
  | aborted => exact h.elim
  | late error => exact h.elim

section Runs

variable {τ : Type} (parser : IParser τ) (debug : Bool)

/-- A completion parses the frames that it reads and announces what they hold. -/
theorem step_ready {s : Sniffer τ} (h : s.reading = .queued) (hlive : s.destroyed = false)
    (error : Option CaptureError) (now : Timeval) (next : List NextEx)
    (hstays : parser.stays s.parser (read (.ready error now next)) = true) :
    ∃ reading, step parser debug s (.ready error now next) =
      .ok ({ s with
          reading := reading
          parser := (parser.all s.parser (read (.ready error now next))).1 },
        (parser.all s.parser (read (.ready error now next))).2.map .notified ++
          (errors s.offline (.ready error now next)).map .failed) ∧
      (reading = .pending ↔ Continues s.offline (.ready error now next)) ∧
      (reading = .pending ∨ reading = .none ∨ reading = .aborted ∧ s.offline = true) := by
  obtain ⟨offline, reading, t, destroyed⟩ := s
  obtain rfl : reading = .queued := h
  obtain rfl : destroyed = false := hlive
  cases error with
  | none =>
    cases offline with
    | true =>
      refine ⟨if ending next = .waits then .aborted else .none, ?_, ?_, ?_⟩
      · have hstays : parser.stays t (frames next) = true := hstays
        simp [step, hstays, onTimer, Capture.process, loop_eq, read, errors]
      · split_ifs <;> simp [Continues]
      · split_ifs <;> simp
    | false =>
      refine ⟨if ending next = .waits then .pending else .none, ?_, ?_, ?_⟩
      · have hstays : parser.stays t (frames next) = true := hstays
        simp [step, hstays, onStream, Capture.process, loop_eq, read, errors]
      · split_ifs with hending <;> simp [Continues, hending]
      · split_ifs <;> simp
  | some e =>
    refine ⟨.none, ?_, by simp [Continues], by simp⟩
    cases offline with
    | true => cases e <;> rfl
    | false => cases e <;> rfl

/-- What a step can do. -/
inductive Effect (s : Sniffer τ) : Event → Sniffer τ → List Output → Prop where
  | complete (hpending : s.reading = .pending) :
    Effect s .complete { s with reading := .queued } []
  | ready (error : Option CaptureError) (now : Timeval) (next : List NextEx) (reading : Reading)
      (hqueued : s.reading = .queued) (hlive : s.destroyed = false)
      (hcontinues : reading = .pending ↔ Continues s.offline (.ready error now next))
      (hreading : reading = .pending ∨ reading = .none ∨ reading = .aborted ∧ s.offline = true) :
    Effect s (.ready error now next)
      { s with
        reading := reading
        parser := (parser.all s.parser (read (.ready error now next))).1 }
      ((parser.all s.parser (read (.ready error now next))).2.map .notified ++
        (errors s.offline (.ready error now next)).map .failed)
  | destroy (hlive : s.destroyed = false) :
    Effect s .destroy s.delete []
  | aborted (haborted : s.reading = .aborted) :
    Effect s .aborted { s with reading := .none }
      (if s.destroyed && uses debug s.offline (some .operationAborted) then [.touched] else [])
  | late (error : Option CaptureError) (hqueued : s.reading = .queued)
      (hdestroyed : s.destroyed = true) :
    Effect s (.late error) { s with reading := .none }
      (if uses debug s.offline error then [.touched] else [])

theorem delete_over (s : Sniffer τ) : ¬s.delete.Reads := by
  unfold delete
  rintro (hpending | ⟨-, hlive⟩)
  · dsimp only at hpending
    split_ifs at hpending with h
    exact h hpending
  · cases hlive

theorem delete_queued_iff (s : Sniffer τ) : s.delete.reading = .queued ↔ s.reading = .queued := by
  cases h : s.reading <;> simp [delete, h]

theorem delete_aborted_iff (s : Sniffer τ) :
    s.delete.reading = .aborted ↔ s.reading = .pending ∨ s.reading = .aborted := by
  cases h : s.reading <;> simp [delete, h]

variable {parser debug} {offline : Bool} {t : τ} {events : List Event} {out : List Output}
  {s : Sniffer τ}

theorem step_effect {e : Event} {s' : Sniffer τ} {o : List Output}
    (hstep : step parser debug s e = .ok (s', o)) : Effect parser debug s e s' o := by
  cases e with
  | complete =>
    by_cases h : s.reading = .pending
    · simp only [step, h, if_true, Except.ok.injEq, Prod.mk.injEq] at hstep
      obtain ⟨rfl, rfl⟩ := hstep
      exact .complete h
    · simp [step, h] at hstep
  | ready error now next =>
    by_cases h : s.reading = .queued ∧ s.destroyed = false
    · cases hstays : parser.stays s.parser (read (.ready error now next)) with
      | true =>
        obtain ⟨reading, heffect, hcontinues, hreading⟩ :=
          step_ready parser debug h.1 h.2 error now next hstays
        obtain ⟨rfl, rfl⟩ := Prod.mk.inj (Except.ok.inj (heffect.symm.trans hstep))
        exact .ready error now next reading h.1 h.2 hcontinues hreading
      | false => simp [step, h, hstays] at hstep
    · simp [step, h] at hstep
  | destroy =>
    cases h : s.destroyed with
    | true => simp [step, h] at hstep
    | false =>
      simp only [step, h, Bool.false_eq_true, if_false, Except.ok.injEq, Prod.mk.injEq] at hstep
      obtain ⟨rfl, rfl⟩ := hstep
      exact .destroy h
  | aborted =>
    by_cases h : s.reading = .aborted
    · simp only [step, h, if_true, Except.ok.injEq, Prod.mk.injEq] at hstep
      obtain ⟨rfl, rfl⟩ := hstep
      exact .aborted h
    · simp [step, h] at hstep
  | late error =>
    by_cases h : s.reading = .queued ∧ s.destroyed = true
    · simp only [step, if_pos h, Except.ok.injEq, Prod.mk.injEq] at hstep
      obtain ⟨rfl, rfl⟩ := hstep
      exact .late error h.1 h.2
    · simp [step, h] at hstep

/-- An event that reads nothing leaves the parser as it is and announces nothing. -/
theorem Effect.silent {e : Event} {s' : Sniffer τ} {o : List Output}
    (h : Effect parser debug s e s' o) (he : e = .complete ∨ e.Over) :
    s'.offline = s.offline ∧ s'.parser = s.parser ∧ (o = [] ∨ o = [.touched]) := by
  cases h with
  | complete hpending => exact ⟨rfl, rfl, .inl rfl⟩
  | ready error now next reading hqueued hlive hcontinues hreading =>
    rcases he with he | he
    · cases he
    · exact he.elim
  | destroy hlive => exact ⟨rfl, rfl, .inl rfl⟩
  | aborted haborted =>
    refine ⟨rfl, rfl, ?_⟩
    split_ifs
    · exact .inr rfl
    · exact .inl rfl
  | late error hqueued hdestroyed =>
    refine ⟨rfl, rfl, ?_⟩
    split_ifs
    · exact .inr rfl
    · exact .inl rfl

theorem Event.reads_nothing {e : Event} (he : e = .complete ∨ e.Over) (offline : Bool) :
    read e = [] ∧ errors offline e = [] := by
  cases e with
  | ready error now next =>
    rcases he with he | he
    · cases he
    · exact he.elim
  | _ => exact ⟨rfl, rfl⟩

theorem Event.Over.stops {e : Event} (h : e.Over) : ¬Continues offline e := by
  cases e with
  | complete => exact h.elim
  | ready error now next => exact h.elim
  | _ => exact id

/-- The packets that a step announces are those of the frames that it reads. -/
theorem step_notifications {s' : Sniffer τ} {e : Event} {o : List Output}
    (hstep : step parser debug s e = .ok (s', o)) :
    s'.parser = (parser.all s.parser (read e)).1 ∧
      notifications o = (parser.all s.parser (read e)).2 := by
  have heffect := step_effect hstep
  have hsilent : e = .complete ∨ e.Over → s'.parser = (parser.all s.parser (read e)).1 ∧
      notifications o = (parser.all s.parser (read e)).2 := by
    intro he
    obtain ⟨-, hparser, ho⟩ := heffect.silent he
    rw [(Event.reads_nothing he s.offline).1, hparser]
    rcases ho with rfl | rfl <;> exact ⟨rfl, rfl⟩
  cases heffect with
  | complete hpending => exact hsilent (.inl rfl)
  | ready error now next reading hqueued hlive hcontinues hreading => simp
  | destroy hlive => exact hsilent (.inr trivial)
  | aborted haborted => exact hsilent (.inr trivial)
  | late error hqueued hdestroyed => exact hsilent (.inr trivial)

variable (parser) in
/-- What a run has done so far, and where the sniffer stands. -/
structure Progress (offline : Bool) (t : τ) (events : List Event) (out : List Output)
    (s : Sniffer τ) : Prop where
  mode : s.offline = offline
  parsed : s.parser = (parser.all t (events.flatMap read)).1
  notified : notifications out = (parser.all t (events.flatMap read)).2
  failed : failures out = events.flatMap (errors offline)
  order : out.filter (· ≠ .touched) =
    (notifications out).map .notified ++ (failures out).map .failed
  pending : s.reading = .pending → s.destroyed = false
  reading : s.Reads → ∀ e ∈ events, Continues offline e
  ended : ¬s.Reads → ∃ before e after, events = before ++ e :: after ∧
    (∀ x ∈ before, Continues offline x) ∧ ¬Continues offline e ∧
    (e ≠ .aborted ∧ ∀ error, e ≠ .late error) ∧ ∀ x ∈ after, x.Over

theorem progress_fresh : Progress parser offline t [] [] (fresh offline t) where
  mode := rfl
  parsed := rfl
  notified := rfl
  failed := rfl
  order := rfl
  pending _ := rfl
  reading := by simp
  ended := fun h => absurd (.inl rfl) h

theorem Progress.quiet (h : Progress parser offline t events out s) (hreads : s.Reads) :
    failures out = [] := by
  rw [h.failed, List.flatMap_eq_nil_iff]
  intro e he
  exact (h.reading hreads e he).quiet.1

theorem Progress.ready (h : Progress parser offline t events out s) {error : Option CaptureError}
    {now : Timeval} {next : List NextEx} {reading : Reading} (hqueued : s.reading = .queued)
    (hlive : s.destroyed = false)
    (hcontinues : reading = .pending ↔ Continues s.offline (.ready error now next))
    (hreading : reading = .pending ∨ reading = .none ∨ reading = .aborted ∧ s.offline = true) :
    Progress parser offline t (events ++ [.ready error now next])
      (out ++ ((parser.all s.parser (read (.ready error now next))).2.map .notified ++
        (errors s.offline (.ready error now next)).map .failed))
      { s with
        reading := reading
        parser := (parser.all s.parser (read (.ready error now next))).1 } := by
  have hreads : s.Reads := .inr ⟨hqueued, hlive⟩
  have hquiet := h.quiet hreads
  have hread : (events ++ [Event.ready error now next]).flatMap read =
      events.flatMap read ++ read (.ready error now next) := by simp
  have hall := parser.all_append t (events.flatMap read) (read (.ready error now next))
  rw [← hread, ← h.parsed, ← h.notified] at hall
  rw [h.mode] at hcontinues
  refine ⟨h.mode, ?_, ?_, ?_, ?_, fun _ => hlive, ?_, ?_⟩
  · rw [hall]
  · rw [hall]
    simp
  · simp [h.failed, h.mode]
  · have hsame : (out.filter (· ≠ .touched)) = (notifications out).map .notified := by
      simpa [hquiet] using h.order
    rw [List.filter_append, hsame]
    have hall : ∀ x ∈ (parser.all s.parser (read (.ready error now next))).2.map Output.notified ++
        (errors s.offline (.ready error now next)).map .failed, x ≠ .touched := by
      intro x hx
      rcases List.mem_append.mp hx with hx | hx
      · obtain ⟨p, -, rfl⟩ := List.mem_map.mp hx
        exact nofun
      · obtain ⟨e, -, rfl⟩ := List.mem_map.mp hx
        exact nofun
    rw [List.filter_eq_self.mpr (by simpa using hall)]
    simp [hquiet]
  · intro hnext x hx
    have hpending : reading = .pending := by
      rcases hreading with h | h | ⟨h, -⟩
      · exact h
      · simp [Reads, h] at hnext
      · simp [Reads, h] at hnext
    rcases List.mem_append.mp hx with hx | hx
    · exact h.reading hreads x hx
    · obtain rfl := List.mem_singleton.mp hx
      exact hcontinues.mp hpending
  · intro hnext
    refine ⟨events, _, [], rfl, h.reading hreads, ?_, ⟨nofun, nofun⟩, by simp⟩
    exact fun hgoes => hnext (.inl (hcontinues.mpr hgoes))

/-- An event that reads nothing. -/
theorem Progress.silent (h : Progress parser offline t events out s) {e : Event}
    (he : e = .complete ∨ e.Over) {s' : Sniffer τ} {o : List Output}
    (heffect : Effect parser debug s e s' o) (hpending : s'.reading = .pending →
      s'.destroyed = false)
    (hreads : s'.Reads → s.Reads ∧ Continues offline e)
    (hended : ¬s'.Reads → e.Over ∧ (s.Reads → e ≠ .aborted ∧ ∀ error, e ≠ .late error)) :
    Progress parser offline t (events ++ [e]) (out ++ o) s' := by
  obtain ⟨hmode, hparser, ho⟩ := heffect.silent he
  obtain ⟨hread, herrors⟩ := Event.reads_nothing he offline
  have hnothing : notifications o = [] ∧ failures o = [] ∧ o.filter (· ≠ .touched) = [] := by
    rcases ho with rfl | rfl <;> exact ⟨rfl, rfl, rfl⟩
  obtain ⟨hnotified, hfailed, hfilter⟩ := hnothing
  refine ⟨hmode.trans h.mode, ?_, ?_, ?_, ?_, hpending, ?_, ?_⟩
  · simpa [hread, hparser] using h.parsed
  · simpa [hread, hnotified] using h.notified
  · simpa [herrors, hfailed] using h.failed
  · rw [List.filter_append, hfilter, notifications_append, failures_append, hnotified, hfailed]
    simpa using h.order
  · intro hnext x hx
    obtain ⟨hbefore, hcontinues⟩ := hreads hnext
    rcases List.mem_append.mp hx with hx | hx
    · exact h.reading hbefore x hx
    · rwa [List.mem_singleton.mp hx]
  · intro hnext
    obtain ⟨hover, hfirst⟩ := hended hnext
    by_cases hbefore : s.Reads
    · exact ⟨events, e, [], rfl, h.reading hbefore, hover.stops, hfirst hbefore, by simp⟩
    · obtain ⟨before, first, after, rfl, hall, hstops, hne, hafter⟩ := h.ended hbefore
      refine ⟨before, first, after ++ [e], by simp, hall, hstops, hne, ?_⟩
      intro x hx
      rcases List.mem_append.mp hx with hx | hx
      · exact hafter x hx
      · rwa [List.mem_singleton.mp hx]

theorem Progress.step (h : Progress parser offline t events out s) {e : Event} {s' : Sniffer τ}
    {o : List Output} (hstep : Sniffer.step parser debug s e = .ok (s', o)) :
    Progress parser offline t (events ++ [e]) (out ++ o) s' := by
  cases step_effect hstep with
  | complete hpending =>
    have hlive := h.pending hpending
    refine h.silent (.inl rfl) (step_effect hstep) nofun ?_ ?_
    · exact fun _ => ⟨.inl hpending, trivial⟩
    · exact fun hnext => absurd (.inr ⟨rfl, hlive⟩) hnext
  | ready error now next reading hqueued hlive hcontinues hreading =>
    exact h.ready hqueued hlive hcontinues hreading
  | destroy hlive =>
    have hover : Event.Over .destroy := trivial
    refine h.silent (.inr hover) (step_effect hstep) ?_ ?_ ?_
    · exact fun hnext => absurd (.inl hnext) s.delete_over
    · exact fun hnext => absurd hnext s.delete_over
    · exact fun _ => ⟨trivial, fun _ => ⟨nofun, nofun⟩⟩
  | aborted haborted =>
    have hdone : ¬s.Reads := by simp [Reads, haborted]
    have hover : Event.Over .aborted := trivial
    refine h.silent (.inr hover) (step_effect hstep) nofun ?_ ?_
    · rintro (hnext | ⟨hnext, -⟩) <;> cases hnext
    · exact fun _ => ⟨trivial, fun hreads => absurd hreads hdone⟩
  | late error hqueued hdestroyed =>
    have hdone : ¬s.Reads := by simp [Reads, hqueued, hdestroyed]
    have hover : Event.Over (.late error) := trivial
    refine h.silent (.inr hover) (step_effect hstep) nofun ?_ ?_
    · rintro (hnext | ⟨hnext, -⟩) <;> cases hnext
    · exact fun _ => ⟨trivial, fun hreads => absurd hreads hdone⟩

theorem run_progress (hrun : (machine parser debug).run (fresh offline t) events = .ok (s, out)) :
    Progress parser offline t events out s :=
  (machine parser debug).run_invariant (Progress parser offline t)
    (fun _ _ _ _ _ _ h hstep => h.step hstep) progress_fresh hrun

/-- The wait had completed behind these events, and its handler was queued. -/
def Completed (events : List Event) : Prop := events.getLast? = some .complete

/-- The sniffer was destroyed while it was reading, behind events of this kind. -/
def Released (offline : Bool) (P : List Event → Prop) (events : List Event) : Prop :=
  ∃ before after, events = before ++ .destroy :: after ∧ (∀ e ∈ before, Continues offline e) ∧
    P before

theorem Released.snoc {P : List Event → Prop} (h : Released offline P events) (e : Event) :
    Released offline P (events ++ [e]) := by
  obtain ⟨before, after, rfl, hbefore⟩ := h
  exact ⟨before, after ++ [e], by simp, hbefore⟩

variable (debug) in
/-- Which handler runs on a sniffer that is destroyed. -/
structure Lifetime (offline : Bool) (events : List Event) (out : List Output) (s : Sniffer τ) :
    Prop where
  mode : s.offline = offline
  pending : s.reading = .pending → s.destroyed = false
  reading : s.Reads → ∀ e ∈ events, Continues offline e
  completed : s.Reads → (Completed events ↔ s.reading = .queued)
  queued : s.reading = .queued → s.destroyed = true → Released offline Completed events
  aborted : offline = false → s.reading = .aborted →
    s.destroyed = true ∧ Released offline (fun before => ¬Completed before) events
  ran : offline = false → .aborted ∈ events →
    Released offline (fun before => ¬Completed before) events
  late : ∀ error, .late error ∈ events → Released offline Completed events
  touched : .touched ∈ out ↔
    .aborted ∈ events ∧ uses debug offline (some .operationAborted) = true ∨
      ∃ error, .late error ∈ events ∧ uses debug offline error = true

/-- A step of a sniffer that is not destroyed. -/
theorem Lifetime.live (h : Lifetime debug offline events out s) {e : Event} {s' : Sniffer τ}
    {o : List Output} (he : ¬e.Over) (hdestroyed : s'.destroyed = false)
    (hmode : s'.offline = s.offline) (ho : .touched ∉ o)
    (hreading : s'.Reads → ∀ x ∈ events ++ [e], Continues offline x)
    (hcompleted : s'.Reads → (Completed (events ++ [e]) ↔ s'.reading = .queued))
    (haborted : offline = false → s'.reading ≠ .aborted) :
    Lifetime debug offline (events ++ [e]) (out ++ o) s' := by
  have hold : ∀ x : Event, x.Over → (x ∈ events ++ [e] ↔ x ∈ events) := by
    intro x hx
    rw [List.mem_append, List.mem_singleton, or_iff_left]
    rintro rfl
    exact he hx
  refine ⟨hmode.trans h.mode, fun _ => hdestroyed, hreading, hcompleted, ?_, ?_, ?_, ?_, ?_⟩
  · exact fun _ hgone => absurd (hdestroyed.symm.trans hgone) nofun
  · exact fun hoffline hnext => absurd hnext (haborted hoffline)
  · exact fun hoffline hran => (h.ran hoffline ((hold .aborted trivial).mp hran)).snoc e
  · exact fun error hran => (h.late error ((hold (.late error) trivial).mp hran)).snoc e
  · rw [List.mem_append, or_iff_left ho, h.touched, hold .aborted trivial]
    simp only [hold (.late _) trivial]

theorem Lifetime.step (h : Lifetime debug offline events out s) {e : Event} {s' : Sniffer τ}
    {o : List Output} (hstep : Sniffer.step parser debug s e = .ok (s', o)) :
    Lifetime debug offline (events ++ [e]) (out ++ o) s' := by
  cases step_effect hstep with
  | complete hpending =>
    refine h.live id (h.pending hpending) rfl (by simp) ?_ ?_ fun _ => nofun
    · intro _ x hx
      rcases List.mem_append.mp hx with hx | hx
      · exact h.reading (.inl hpending) x hx
      · rw [List.mem_singleton.mp hx]
        exact trivial
    · simp [Completed]
  | ready error now next reading hqueued hlive hcontinues hreading =>
    have hreads : s.Reads := .inr ⟨hqueued, hlive⟩
    rw [h.mode] at hcontinues hreading
    have hpending : reading = .pending ∨ reading = .queued ∧ s.destroyed = false →
        reading = .pending := by
      rintro (hnext | ⟨rfl, -⟩)
      · exact hnext
      · simp at hreading
    refine h.live id hlive rfl (by simp) ?_ ?_ ?_
    · intro hnext x hx
      rcases List.mem_append.mp hx with hx | hx
      · exact h.reading hreads x hx
      · rw [List.mem_singleton.mp hx]
        exact hcontinues.mp (hpending hnext)
    · intro hnext
      simp [Completed, hpending hnext]
    · rintro rfl rfl
      simp at hreading
  | destroy hlive =>
    have hover := s.delete_over
    refine ⟨h.mode, ?_, fun hr => absurd hr hover, fun hr => absurd hr hover, ?_, ?_, ?_, ?_, ?_⟩
    · exact fun hr => absurd (.inl hr) hover
    · intro hr _
      have hqueued := (s.delete_queued_iff).mp hr
      have hreads : s.Reads := .inr ⟨hqueued, hlive⟩
      exact ⟨events, [], rfl, h.reading hreads, (h.completed hreads).mpr hqueued⟩
    · intro hoffline hr
      rcases (s.delete_aborted_iff).mp hr with hpending | haborted
      · have hreads : s.Reads := .inl hpending
        refine ⟨rfl, events, [], rfl, h.reading hreads, fun hcompleted => ?_⟩
        cases hpending.symm.trans ((h.completed hreads).mp hcompleted)
      · cases hlive.symm.trans (h.aborted hoffline haborted).1
    · exact fun hoffline hran => (h.ran hoffline (by simpa using hran)).snoc _
    · exact fun error hran => (h.late error (by simpa using hran)).snoc _
    · simpa using h.touched
  | aborted haborted =>
    refine ⟨h.mode, nofun, ?_, ?_, nofun, fun _ => nofun, ?_, ?_, ?_⟩
    · rintro (hr | ⟨hr, -⟩) <;> cases hr
    · rintro (hr | ⟨hr, -⟩) <;> cases hr
    · exact fun hoffline _ => (h.aborted hoffline haborted).2.snoc _
    · exact fun error hran => (h.late error (by simpa using hran)).snoc _
    · have hused : s.destroyed = true ∨ uses debug offline (some .operationAborted) = false := by
        cases hoffline : offline with
        | true => exact .inr rfl
        | false => exact .inl (h.aborted hoffline haborted).1
      rw [h.mode, List.mem_append, h.touched]
      rcases hused with hused | hused <;> simp [hused]
      grind
  | late error hqueued hdestroyed =>
    have hreleased := h.queued hqueued hdestroyed
    refine ⟨h.mode, nofun, ?_, ?_, nofun, fun _ => nofun, ?_, ?_, ?_⟩
    · rintro (hr | ⟨hr, -⟩) <;> cases hr
    · rintro (hr | ⟨hr, -⟩) <;> cases hr
    · exact fun hoffline hran => (h.ran hoffline (by simpa using hran)).snoc _
    · exact fun _ _ => hreleased.snoc _
    · rw [h.mode, List.mem_append, h.touched]
      cases hused : uses debug offline error <;> simp [hused]

end Runs

end Sniffer
end NetComponents.Pcap
