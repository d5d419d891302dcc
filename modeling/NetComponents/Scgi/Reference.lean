import NetComponents.Scgi.Parser

/-!
# The parser against a decoder of the whole stream

`reference` decodes a complete byte stream by recursion on its frames. What a
parser state still has to produce is the reference result on the bytes it has
consumed of the current frame and everything that follows (`resume`). Each pass
through the loop of `Parser.process` produces its share of that, so the way the
stream is cut into chunks cannot matter.
-/

namespace NetComponents.Scgi

open Library

/-- What becomes of a stream: the payloads handed to the dispatcher and whether
the stream was given up after the last of them. -/
structure Outcome where
  payloads : List Bytes
  failed : Bool
  deriving DecidableEq, Repr

namespace Outcome

/-- A failed stream closes the connection once, after its last payload. -/
def events (o : Outcome) : List Event :=
  o.payloads.map .onMessage ++ if o.failed then [.close] else []

def cons (payload : Bytes) (o : Outcome) : Outcome :=
  { o with payloads := payload :: o.payloads }

@[simp] theorem events_cons (payload : Bytes) (o : Outcome) :
    (o.cons payload).events = .onMessage payload :: o.events := rfl

@[simp] theorem failed_cons (payload : Bytes) (o : Outcome) :
    (o.cons payload).failed = o.failed := rfl

end Outcome

variable {δ : Type} (d : Dispatcher δ)

/-- Dispatch one payload and, if it was accepted, go on. -/
def deliver (t : δ) (payload : Bytes) (next : δ → Outcome) : Outcome :=
  let reply := d.onMessage t payload
  if reply.1 = .returned true then (next reply.2).cons payload else ⟨[payload], true⟩

/-- The reference decoder. A header is looked at once a further byte exists. -/
def reference (t : δ) (stream : Bytes) : Outcome :=
  if stream.length ≤ 8 then ⟨[], false⟩
  else
    let size := readLE (slice stream 4 4)
    let rest := stream.drop 8
    if readLE (slice stream 0 4) ≠ 0xFB then ⟨[], true⟩
    else if size = 0 then reference t rest
    else if 1024 * 1024 < size then reference t (rest.drop size)
    else if rest.length < size then ⟨[], false⟩
    else deliver d t (rest.take size) fun t' => reference t' (rest.drop size)
termination_by stream.length
decreasing_by all_goals simp_all only [List.length_drop]; omega

theorem reference_short (t : δ) {stream : Bytes} (h : stream.length ≤ 8) :
    reference d t stream = ⟨[], false⟩ := by
  rw [reference, if_pos h]

/-- A message body of which `got` was received and `need` bytes are missing. -/
def body (t : δ) (got : Bytes) (need : ℕ) (rest : Bytes) : Outcome :=
  if rest.length < need then ⟨[], false⟩
  else deliver d t (got ++ rest.take need) fun t' => reference d t' (rest.drop need)

theorem reference_header (t : δ) (h : Header) {rest : Bytes} (hrest : rest ≠ []) :
    reference d t (h.bytes ++ rest) =
      if !h.valid then ⟨[], true⟩
      else if h.size = 0 then reference d t rest
      else if h.overflow then reference d t (rest.drop h.size.toNat)
      else body d t [] h.size.toNat rest := by
  have hlen : 0 < rest.length := List.length_pos_of_ne_nil hrest
  have hlong : ¬ (h.bytes ++ rest).length ≤ 8 := by simp; omega
  have hdrop : (h.bytes ++ rest).drop 8 = rest := List.drop_left' (by simp)
  have hmarker : readLE (slice (h.bytes ++ rest) 0 4) ≠ 0xFB ↔ (!h.valid) = true := by
    rw [Header.readLE_marker]
    simp [Header.valid, Header.markerValue, ← UInt32.toNat_inj]
  rw [reference, if_neg hlong]
  simp only [hmarker, Header.readLE_size, hdrop, h.toNat_size_eq_zero_iff, ← h.overflow_iff, body,
    List.nil_append]

namespace Parser

/-- The parser is inside a body, or about to enter it. -/
structure InBody (p : Parser) : Prop where
  alive : p.failed = false
  nread : p.nread = 8 + p.msgsize
  msgsize_lt : p.msgsize < p.header.size.toNat
  buffered : p.skipmsg = false → p.msgbuf.length = p.header.size.toNat

/-- The states between two passes through the loop. -/
def Inv (p : Parser) : Prop :=
  p.failed = true ∨ (p.nread ≤ 8 ∧ p.msgsize = 0) ∨ (0 < p.msgsize ∧ p.InBody)

/-- What a parser inside a body does with the bytes that follow. -/
def inBody (p : Parser) (t : δ) (rest : Bytes) : Outcome :=
  if p.skipmsg then reference d t (rest.drop (p.header.size.toNat - p.msgsize))
  else body d t (p.msgbuf.take p.msgsize) (p.header.size.toNat - p.msgsize) rest

/-- What a parser does with the bytes that follow. -/
def resume (p : Parser) (t : δ) (rest : Bytes) : Outcome :=
  if p.nread ≤ 8 then reference d t (p.header.bytes.take p.nread ++ rest)
  else p.inBody d t rest

/-- The events still to come and the final flag: a failed parser does nothing. -/
def residual (s : Parser × δ) (rest : Bytes) : List Event × Bool :=
  if s.1.failed then ([], true)
  else ((s.1.resume d s.2 rest).events, (s.1.resume d s.2 rest).failed)

theorem residual_failed {p : Parser} (h : p.failed = true) (t : δ) (rest : Bytes) :
    residual d (p, t) rest = ([], true) := if_pos h

theorem residual_alive {p : Parser} (h : p.failed = false) (t : δ) (rest : Bytes) :
    residual d (p, t) rest = ((p.resume d t rest).events, (p.resume d t rest).failed) := by
  simp [residual, h]

end Parser

theorem body_append (t : δ) (got x rest : Bytes) {need : ℕ} (h : x.length ≤ need) :
    body d t got need (x ++ rest) = body d t (got ++ x) (need - x.length) rest := by
  have hlt : (x ++ rest).length < need ↔ rest.length < need - x.length := by
    simp only [List.length_append]
    omega
  have htake : (x ++ rest).take need = x ++ rest.take (need - x.length) := by
    rw [List.take_append, List.take_of_length_le h]
  have hdrop : (x ++ rest).drop need = rest.drop (need - x.length) := by
    rw [List.drop_append, List.drop_of_length_le h, List.nil_append]
  simp only [body, hlt, htake, hdrop, List.append_assoc]

theorem body_complete (t : δ) (got x rest : Bytes) {need : ℕ} (h : need ≤ x.length) :
    body d t got need (x ++ rest) =
      deliver d t (got ++ x.take need) fun t' => reference d t' (x.drop need ++ rest) := by
  have hlt : ¬ (x ++ rest).length < need := by
    simp only [List.length_append]
    omega
  rw [body, if_neg hlt, List.take_append_of_le_length h]
  simp only [List.drop_append_of_le_length h]

theorem Parser.inBody_complete {p : Parser} (t : δ) {n : ℕ} {msgbuf x : Bytes}
    (hdone : p.msgsize + n = p.header.size.toNat) (hn : n ≤ x.length)
    (hmsgbuf : p.skipmsg = false → msgbuf = p.msgbuf.take p.msgsize ++ x.take n)
    (rest : Bytes) :
    p.inBody d t (x ++ rest) =
      if p.skipmsg then reference d t (x.drop n ++ rest)
      else deliver d t msgbuf fun t' => reference d t' (x.drop n ++ rest) := by
  have hneed : p.header.size.toNat - p.msgsize = n := by omega
  by_cases hskip : p.skipmsg = true
  · simp only [Parser.inBody, hskip, if_true, hneed]
    rw [List.drop_append_of_le_length hn]
  · have hfull := hmsgbuf (by simpa using hskip)
    simp only [Parser.inBody, hskip, hneed, Bool.false_eq_true, if_false]
    rw [body_complete d _ _ _ _ hn, ← hfull]

theorem Parser.inBody_append {p p' : Parser} (t : δ) {x : Bytes}
    (hx : x.length ≤ p.header.size.toNat - p.msgsize) (hheader : p'.header = p.header)
    (hskip : p'.skipmsg = p.skipmsg) (hmsgsize : p'.msgsize = p.msgsize + x.length)
    (hmsgbuf : p.skipmsg = false →
      p'.msgbuf.take p'.msgsize = p.msgbuf.take p.msgsize ++ x)
    (rest : Bytes) :
    p.inBody d t (x ++ rest) = p'.inBody d t rest := by
  have hsub : p'.header.size.toNat - p'.msgsize =
      p.header.size.toNat - p.msgsize - x.length := by
    rw [hheader, hmsgsize]
    omega
  by_cases h : p.skipmsg = true
  · simp only [Parser.inBody, hskip, h, if_true, hsub]
    rw [List.drop_append, List.drop_of_length_le hx, List.nil_append]
  · have hbuf := hmsgbuf (by simpa using h)
    simp only [Parser.inBody, hskip, h, hsub, Bool.false_eq_true, if_false]
    rw [body_append d _ _ _ _ hx, hbuf]

namespace Loop

variable (buf : Bytes) (size : ℕ)

/-- The bytes of the chunk that are still to be read. -/
def content (l : Loop δ) : Bytes := (buf.take size).drop l.i

/-- How many more passes the chunk can take, at most. -/
def budget (l : Loop δ) : ℕ := 2 * (size - l.i) + if 8 ≤ l.parser.nread then 1 else 0

/-- A pass from `l` to `l'`, where `F` is what the parser of `l` does with the
bytes to come. The flag tells whether the loop goes on. -/
structure Pass (F : Bytes → Outcome) (l l' : Loop δ) (go : Bool) : Prop where
  inv : l'.parser.Inv
  failed : l'.parser.failed = !go
  within : go = true → l'.i ≤ size
  produced : ∃ o, l'.events = l.events ++ o ∧ ∀ rest,
    ((F (l.content buf size ++ rest)).events, (F (l.content buf size ++ rest)).failed) =
      (o ++ (Parser.residual d (l'.parser, l'.dispatcher) (l'.content buf size ++ rest)).1,
        (Parser.residual d (l'.parser, l'.dispatcher) (l'.content buf size ++ rest)).2)

variable {buf size}

theorem Pass.silent {F : Bytes → Outcome} {l l' : Loop δ} (hinv : l'.parser.Inv)
    (halive : l'.parser.failed = false) (hi : l'.i ≤ size) (hevents : l'.events = l.events)
    (hF : ∀ rest, F (l.content buf size ++ rest) =
      l'.parser.resume d l'.dispatcher (l'.content buf size ++ rest)) :
    Pass d buf size F l l' true where
  inv := hinv
  failed := halive
  within := fun _ => hi
  produced := ⟨[], by simpa using hevents, fun rest => by
    simp [Parser.residual_alive d halive, hF]⟩

theorem Pass.dispatched {F : Bytes → Outcome} {l l' : Loop δ} (payload : Bytes)
    (hinv : l'.parser.Inv) (halive : l'.parser.failed = false) (hi : l'.i ≤ size)
    (hevents : l'.events = l.events ++ [.onMessage payload])
    (hF : ∀ rest, F (l.content buf size ++ rest) =
      (l'.parser.resume d l'.dispatcher (l'.content buf size ++ rest)).cons payload) :
    Pass d buf size F l l' true where
  inv := hinv
  failed := halive
  within := fun _ => hi
  produced := ⟨_, hevents, fun rest => by simp [Parser.residual_alive d halive, hF]⟩

theorem Pass.failing {F : Bytes → Outcome} {l l' : Loop δ} (payloads : List Bytes)
    (hfailed : l'.parser.failed = true)
    (hevents : l'.events = l.events ++ (payloads.map .onMessage ++ [.close]))
    (hF : ∀ rest, F (l.content buf size ++ rest) = ⟨payloads, true⟩) :
    Pass d buf size F l l' false where
  inv := .inl hfailed
  failed := hfailed
  within := fun h => by simp at h
  produced := ⟨_, hevents, fun rest => by
    simp [Parser.residual_failed d hfailed, hF, Outcome.events]⟩

theorem resume_next {p : Parser} (h : p.nread = 0) (t : δ) (rest : Bytes) :
    p.resume d t rest = reference d t rest := by
  simp [Parser.resume, h]

theorem finish_pass {l : Loop δ} {n : ℕ} (F : Bytes → Outcome)
    (halive : l.parser.failed = false) (hi : l.i + n ≤ size)
    (hF : ∀ rest, F (l.content buf size ++ rest) =
      if l.parser.skipmsg then reference d l.dispatcher ((l.content buf size).drop n ++ rest)
      else deliver d l.dispatcher l.parser.msgbuf fun t' =>
        reference d t' ((l.content buf size).drop n ++ rest)) :
    Pass d buf size F l (finish d l n).1 (finish d l n).2 ∧
      ((finish d l n).2 = true → (finish d l n).1.i = l.i + n) := by
  by_cases hskip : l.parser.skipmsg = true
  · rw [finish_skipped d n hskip]
    constructor
    · refine Pass.silent d (.inr (.inl ⟨by simp, rfl⟩)) halive hi rfl ?_
      intro rest
      rw [hF, if_pos hskip, resume_next d rfl]
      simp [content]
    · intro _
      rfl
  · have hkeep : l.parser.skipmsg = false := by simpa using hskip
    by_cases hret : (d.onMessage l.dispatcher l.parser.msgbuf).1 = .returned true
    · rw [finish_accepted d n hkeep hret]
      constructor
      · refine Pass.dispatched d l.parser.msgbuf (.inr (.inl ⟨by simp, rfl⟩)) halive hi rfl ?_
        intro rest
        rw [hF, if_neg hskip, resume_next d rfl]
        simp [content, deliver, hret]
      · intro _
        rfl
    · rw [finish_refused d n hkeep hret]
      constructor
      · refine Pass.failing d [l.parser.msgbuf] rfl rfl ?_
        intro rest
        rw [hF, if_neg hskip]
        simp [deliver, hret]
      · simp

theorem length_content (hbuf : size ≤ buf.length) (l : Loop δ) :
    (l.content buf size).length = size - l.i := by
  simp only [content, List.length_drop, List.length_take, Nat.min_eq_left hbuf]

theorem needs_bounds {l : Loop δ} (hi : l.i < size) (hp : l.parser.InBody) :
    0 < l.needs size ∧ l.needs size ≤ size - l.i ∧
      l.needs size ≤ l.parser.header.size.toNat - l.parser.msgsize ∧
      (l.needs size = size - l.i ∨
        l.needs size = l.parser.header.size.toNat - l.parser.msgsize) := by
  have hlt := hp.msgsize_lt
  have hsize : l.parser.header.size.toNat < 2 ^ 32 := l.parser.header.size.toNat_lt
  rw [needs, subSize_of_le hlt.le (by omega)]
  split_ifs <;> omega

theorem copyBody_ok {l : Loop δ} (hbuf : size ≤ buf.length) (hp : l.parser.InBody) {n : ℕ}
    (hn : n ≤ size - l.i) (hi : l.i < size)
    (hn' : n ≤ l.parser.header.size.toNat - l.parser.msgsize) :
    ∃ msgbuf, l.copyBody buf n = .ok msgbuf ∧
      (l.parser.skipmsg = false → msgbuf.length = l.parser.header.size.toNat ∧
        msgbuf.take (l.parser.msgsize + n) =
          l.parser.msgbuf.take l.parser.msgsize ++ (l.content buf size).take n) := by
  by_cases hskip : l.parser.skipmsg = true
  · exact ⟨l.parser.msgbuf, by simp [copyBody, hskip], by simp [hskip]⟩
  · have hlt := hp.msgsize_lt
    have hlen := hp.buffered (by simpa using hskip)
    have htake : (l.parser.msgbuf.take l.parser.msgsize).length = l.parser.msgsize := by
      rw [List.length_take, hlen, Nat.min_eq_left hlt.le]
    have hsrc : read buf l.i n = .ok ((l.content buf size).take n) := by
      rw [read_ok (by omega), content, List.drop_take, List.take_take, Nat.min_eq_left hn, slice]
    have hsrclen : ((l.content buf size).take n).length = n := by
      rw [List.length_take, length_content hbuf, Nat.min_eq_left hn]
    have hcopy : l.copyBody buf n =
        overwrite l.parser.msgbuf l.parser.msgsize ((l.content buf size).take n) := by
      rw [copyBody, if_neg hskip, hsrc]
      rfl
    refine ⟨_, hcopy.trans (overwrite_ok (by omega)), ?_⟩
    intro _
    constructor
    · simp only [List.length_append, htake, hsrclen, List.length_drop, hlen]
      omega
    · rw [List.take_append_of_le_length (by simp only [List.length_append]; omega),
        List.take_of_length_le (by simp only [List.length_append]; omega)]

theorem consume_complete {l : Loop δ} {n : ℕ} {msgbuf : Bytes} (hbuf : size ≤ buf.length)
    (halive : l.parser.failed = false) (hn : n ≤ size - l.i) (hi : l.i < size)
    (hdone : l.parser.msgsize + n = l.parser.header.size.toNat)
    (hmsgbuf : l.parser.skipmsg = false → msgbuf =
      l.parser.msgbuf.take l.parser.msgsize ++ (l.content buf size).take n)
    {l₁ : Loop δ} (hl₁ : l₁ = { l with
      parser := { l.parser with msgbuf := msgbuf, msgsize := l.parser.msgsize + n } }) :
    Pass d buf size (l.parser.inBody d l.dispatcher) l (finish d l₁ n).1 (finish d l₁ n).2 ∧
      ((finish d l₁ n).2 = true → (finish d l₁ n).1.i = l.i + n) := by
  have hxlen := length_content hbuf l
  have hF := Parser.inBody_complete d l.dispatcher hdone (by omega) hmsgbuf
  have hle : l.i + n ≤ size := by omega
  subst hl₁
  obtain ⟨hpass, hgo⟩ := finish_pass d (l.parser.inBody d l.dispatcher) (l := { l with
    parser := { l.parser with msgbuf := msgbuf, msgsize := l.parser.msgsize + n } })
    halive hle hF
  exact ⟨⟨hpass.inv, hpass.failed, hpass.within, hpass.produced⟩, hgo⟩

theorem consume_partial {l : Loop δ} {n : ℕ} {msgbuf : Bytes} (hbuf : size ≤ buf.length)
    (hp : l.parser.InBody) (hpos : 0 < n) (hall : n = (l.content buf size).length)
    (hi : l.i < size) (hn : l.parser.msgsize + n < l.parser.header.size.toNat)
    (hmsgbuf : l.parser.skipmsg = false → msgbuf.length = l.parser.header.size.toNat ∧
      msgbuf.take (l.parser.msgsize + n) =
        l.parser.msgbuf.take l.parser.msgsize ++ l.content buf size)
    {l' : Loop δ} (hl' : l' = { l with
      parser := { l.parser with
        msgbuf := msgbuf, msgsize := l.parser.msgsize + n, nread := l.parser.nread + n }
      i := l.i + n }) :
    Pass d buf size (l.parser.inBody d l.dispatcher) l l' true := by
  have hxlen := length_content hbuf l
  have hnread := hp.nread
  have hempty : l'.content buf size = [] := by
    subst hl'
    exact List.drop_of_length_le (by simp only [List.length_take]; omega)
  have hinv : l'.parser.InBody := by
    subst hl'
    constructor
    · exact hp.alive
    · change l.parser.nread + n = 8 + (l.parser.msgsize + n)
      omega
    · exact hn
    · intro hskip
      exact (hmsgbuf hskip).1
  have hF : ∀ rest, l.parser.inBody d l.dispatcher (l.content buf size ++ rest) =
      l'.parser.inBody d l.dispatcher rest := by
    apply Parser.inBody_append d l.dispatcher (by omega) <;> subst hl'
    · rfl
    · rfl
    · rw [← hall]
    · exact fun hskip => (hmsgbuf hskip).2
  subst hl'
  refine Pass.silent d (.inr (.inr ⟨Nat.add_pos_right _ hpos, hinv⟩)) hp.alive
    (show l.i + n ≤ size by omega) rfl ?_
  intro rest
  have hn8 : ¬ l.parser.nread + n ≤ 8 := by omega
  rw [hempty, List.nil_append, Parser.resume, if_neg hn8]
  exact hF rest

/-- Reading from a body: either it becomes complete and is finished, or the
chunk is used up. -/
theorem consume_pass {l : Loop δ} (hbuf : size ≤ buf.length) (hi : l.i < size)
    (hp : l.parser.InBody) :
    ∃ l' go, consume d buf size l = .ok (l', go) ∧
      Pass d buf size (l.parser.inBody d l.dispatcher) l l' go ∧ (go = true → l.i < l'.i) := by
  have hlt := hp.msgsize_lt
  have hxlen := length_content hbuf l
  obtain ⟨hpos, hn, hn', hor⟩ := needs_bounds hi hp
  obtain ⟨msgbuf, hcopy, hmsgbuf⟩ := copyBody_ok hbuf hp hn hi hn'
  set n := l.needs size with hndef
  by_cases hdone : l.parser.msgsize + n = l.parser.header.size.toNat
  · have hfull : l.parser.skipmsg = false → msgbuf =
        l.parser.msgbuf.take l.parser.msgsize ++ (l.content buf size).take n := by
      intro hskip
      have hm := hmsgbuf hskip
      rw [← hm.2, List.take_of_length_le (by omega)]
    obtain ⟨hpass, hgo⟩ := consume_complete d hbuf hp.alive hn hi hdone hfull rfl
    refine ⟨_, _, by rw [consume_eq d hcopy, if_pos hdone], hpass, ?_⟩
    intro h
    rw [hgo h]
    omega
  · have hall : n = (l.content buf size).length := by omega
    have htake : (l.content buf size).take n = l.content buf size :=
      List.take_of_length_le (by omega)
    rw [htake] at hmsgbuf
    have hpass := consume_partial d hbuf hp hpos hall hi (by omega) hmsgbuf rfl
    exact ⟨_, _, by rw [consume_eq d hcopy, if_neg hdone], hpass,
      fun _ => Nat.lt_add_of_pos_right hpos⟩

theorem resume_header {l : Loop δ} (hbuf : size ≤ buf.length) (hi : l.i < size)
    (hn : l.parser.nread = 8) (rest : Bytes) :
    l.parser.resume d l.dispatcher (l.content buf size ++ rest) =
      if !l.parser.header.valid then ⟨[], true⟩
      else if l.parser.header.size = 0 then reference d l.dispatcher (l.content buf size ++ rest)
      else if l.parser.header.overflow then
        reference d l.dispatcher
          ((l.content buf size ++ rest).drop l.parser.header.size.toNat)
      else body d l.dispatcher [] l.parser.header.size.toNat (l.content buf size ++ rest) := by
  have hne : l.content buf size ++ rest ≠ [] := by
    have := length_content hbuf l
    intro h
    have := congrArg List.length h
    simp only [List.length_append, List.length_nil] at this
    omega
  rw [Parser.resume, if_pos hn.le, hn, List.take_of_length_le (by simp),
    reference_header d _ _ hne]

theorem header_pass {l : Loop δ} (hbuf : size ≤ buf.length) (hi : l.i < size)
    (halive : l.parser.failed = false) (hn : l.parser.nread < 8) (hm : l.parser.msgsize = 0) :
    ∃ l' go, iterate d buf size l = .ok (l', go) ∧
      Pass d buf size (l.parser.resume d l.dispatcher) l l' go ∧
      (go = true → l'.budget size < l.budget size) := by
  obtain ⟨b, bs, hcons⟩ := List.exists_cons_of_length_pos (l := l.content buf size)
    (by rw [length_content hbuf]; omega)
  have hnext : (buf.take size).drop (l.i + 1) = bs := by
    rw [← List.drop_drop, ← content, hcons, List.drop_one, List.tail_cons]
  have hread : read buf l.i 1 = .ok [b] := by
    have hslice : slice buf l.i 1 = (l.content buf size).take 1 := by
      rw [content, List.drop_take, List.take_take, Nat.min_eq_left (by omega), slice]
    rw [read_ok (by omega), hslice, hcons, List.take_succ_cons, List.take_zero]
  refine ⟨{ l with
      parser := { l.parser with
        header := l.parser.header.setByte l.parser.nread b, nread := l.parser.nread + 1 }
      i := l.i + 1 }, true, ?_, ?_, ?_⟩
  · simp [iterate, Header.bytesize, hn, hread, Except.map]
  · have hn' : l.parser.nread + 1 ≤ 8 := hn
    refine Pass.silent d (.inr (.inl ⟨hn', hm⟩)) halive hi rfl ?_
    intro rest
    simp only [Parser.resume, if_pos hn.le, if_pos hn', Header.take_bytes_setByte _ b hn, hcons]
    simp [content, hnext]
  · intro _
    simp only [budget]
    split_ifs <;> omega

theorem begin_pass {l : Loop δ} (p : Parser) (hbuf : size ≤ buf.length) (hi : l.i < size)
    (hn : l.parser.nread = 8) (hp : p.InBody)
    (hstep : iterate d buf size l = consume d buf size { l with parser := p })
    (hF : ∀ rest, l.parser.resume d l.dispatcher (l.content buf size ++ rest) =
      p.inBody d l.dispatcher (l.content buf size ++ rest)) :
    ∃ l' go, iterate d buf size l = .ok (l', go) ∧
      Pass d buf size (l.parser.resume d l.dispatcher) l l' go ∧
      (go = true → l'.budget size < l.budget size) := by
  obtain ⟨l', go, hconsume, hpass, hgo⟩ := consume_pass d (l := { l with parser := p }) hbuf hi hp
  obtain ⟨o, hevents, hproduced⟩ := hpass.produced
  refine ⟨l', go, hstep.trans hconsume, ⟨hpass.inv, hpass.failed, hpass.within, o, hevents, ?_⟩, ?_⟩
  · intro rest
    rw [hF]
    exact hproduced rest
  · intro h
    have hlt : l.i < l'.i := hgo h
    have hle := hpass.within h
    simp only [budget, hn]
    split_ifs <;> omega

/-- A complete header is checked: it is refused, announces an empty message, or begins a
body. -/
theorem checked_pass {l : Loop δ} (hbuf : size ≤ buf.length) (hi : l.i < size)
    (halive : l.parser.failed = false) (hn : l.parser.nread = 8) (hm : l.parser.msgsize = 0) :
    ∃ l' go, iterate d buf size l = .ok (l', go) ∧
      Pass d buf size (l.parser.resume d l.dispatcher) l l' go ∧
      (go = true → l'.budget size < l.budget size) := by
  have hF := resume_header d hbuf hi hn
  by_cases hvalid : l.parser.header.valid = true
  swap
  · refine ⟨l.fail, false, by simp [iterate, Header.bytesize, hn, hvalid], ?_, by simp⟩
    refine Pass.failing d [] rfl rfl ?_
    intro rest
    simp [hF, hvalid]
  by_cases hover : l.parser.header.overflow = true
  · have hbig : 1024 * 1024 < l.parser.header.size.toNat := l.parser.header.overflow_iff.mp hover
    have hne : l.parser.header.size ≠ 0 := by
      intro h
      simp [h] at hbig
    apply begin_pass d { l.parser with skipmsg := true } hbuf hi hn
      ⟨halive, by simp [hn, hm], by simp only [hm]; omega, by simp⟩
    · simp [iterate, Header.bytesize, hn, hvalid, hover]
    · intro rest
      simp [hF, hvalid, hover, hne, Parser.inBody, hm]
  · by_cases hzero : l.parser.header.size = 0
    · refine ⟨{ l with parser := { l.parser with
          skipmsg := false, msgsize := 0, msgbuf := resize l.parser.msgbuf 0, nread := 0 } },
        true, by simp [iterate, Header.bytesize, hn, hvalid, hover, hzero], ?_, ?_⟩
      · refine Pass.silent d (.inr (.inl ⟨by simp, rfl⟩)) halive hi.le rfl ?_
        intro rest
        rw [hF, resume_next d (by rfl)]
        simp [hvalid, hzero, content]
      · intro _
        simp [budget, hn]
    · have hsize : 0 < l.parser.header.size.toNat := by
        rwa [Nat.pos_iff_ne_zero, Ne, l.parser.header.toNat_size_eq_zero_iff]
      apply begin_pass d { l.parser with
          skipmsg := false, msgsize := 0,
          msgbuf := resize l.parser.msgbuf l.parser.header.size.toNat } hbuf hi hn
        ⟨halive, hn, hsize, by simp⟩
      · simp [iterate, Header.bytesize, hn, hvalid, hover, hzero]
      · intro rest
        simp [hF, hvalid, hover, hzero, Parser.inBody]

/-- Going on with a body of which something was received. -/
theorem body_pass {l : Loop δ} (hbuf : size ≤ buf.length) (hi : l.i < size)
    (hpos : 0 < l.parser.msgsize) (hp : l.parser.InBody) :
    ∃ l' go, iterate d buf size l = .ok (l', go) ∧
      Pass d buf size (l.parser.resume d l.dispatcher) l l' go ∧
      (go = true → l'.budget size < l.budget size) := by
  have hn8 : 8 < l.parser.nread := by
    have := hp.nread
    omega
  obtain ⟨l', go, hconsume, hpass, hgo⟩ := consume_pass d hbuf hi hp
  have hstep : iterate d buf size l = consume d buf size l := by
    have h₁ : ¬ l.parser.nread < 8 := by omega
    have h₂ : ¬ l.parser.nread = 8 := by omega
    simp [iterate, Header.bytesize, h₁, h₂]
  have hF : l.parser.resume d l.dispatcher = l.parser.inBody d l.dispatcher := by
    funext rest
    rw [Parser.resume, if_neg (by omega)]
  refine ⟨l', go, hstep.trans hconsume, hF ▸ hpass, ?_⟩
  intro h
  have hlt := hgo h
  have hle := hpass.within h
  simp only [budget]
  split_ifs <;> omega

/-- One pass through the loop, from any state between two passes. -/
theorem iterate_pass {l : Loop δ} (hbuf : size ≤ buf.length) (hi : l.i < size)
    (halive : l.parser.failed = false) (hinv : l.parser.Inv) :
    ∃ l' go, iterate d buf size l = .ok (l', go) ∧
      Pass d buf size (l.parser.resume d l.dispatcher) l l' go ∧
      (go = true → l'.budget size < l.budget size) := by
  rcases hinv with hfailed | ⟨hn, hm⟩ | ⟨hpos, hp⟩
  · simp [halive] at hfailed
  · rcases hn.lt_or_eq with hn | hn
    · exact header_pass d hbuf hi halive hn hm
    · exact checked_pass d hbuf hi halive hn hm
  · exact body_pass d hbuf hi hpos hp

/-- The loop ends within its budget and produces what is due on this chunk. -/
theorem loop_pass (hbuf : size ≤ buf.length) (fuel : ℕ) {l : Loop δ} (hi : l.i ≤ size)
    (halive : l.parser.failed = false) (hinv : l.parser.Inv) (hfuel : l.budget size < fuel) :
    ∃ l' r o, loop d buf size fuel l = .ok (l', r) ∧ l'.parser.Inv ∧ l'.events = l.events ++ o ∧
      ∀ rest, Parser.residual d (l.parser, l.dispatcher) (l.content buf size ++ rest) =
        (o ++ (Parser.residual d (l'.parser, l'.dispatcher) rest).1,
          (Parser.residual d (l'.parser, l'.dispatcher) rest).2) := by
  induction fuel generalizing l with
  | zero => omega
  | succ fuel ih =>
    by_cases hlt : l.i < size
    · obtain ⟨l₁, go, hstep, hpass, hgo⟩ := iterate_pass d hbuf hlt halive hinv
      obtain ⟨o₁, hevents₁, hproduced⟩ := hpass.produced
      cases go with
      | false =>
        have hfailed : l₁.parser.failed = true := hpass.failed
        refine ⟨l₁, false, o₁, by simp [loop, hlt, hstep], hpass.inv, hevents₁, ?_⟩
        intro rest
        rw [Parser.residual_alive d halive, hproduced, Parser.residual_failed d hfailed,
          Parser.residual_failed d hfailed]
      | true =>
        have hbudget := hgo rfl
        obtain ⟨l', r, o, hloop, hinv', hevents, hrest⟩ :=
          ih (hpass.within rfl) hpass.failed hpass.inv (by omega)
        refine ⟨l', r, o₁ ++ o, by simp [loop, hlt, hstep, hloop], hinv',
          by rw [hevents, hevents₁, List.append_assoc], ?_⟩
        intro rest
        rw [Parser.residual_alive d halive, hproduced, hrest, List.append_assoc]
    · have hempty : l.content buf size = [] :=
        List.drop_of_length_le (by simp only [List.length_take]; omega)
      exact ⟨l, true, [], by simp [loop, hlt], hinv, by simp, fun rest => by simp [hempty]⟩

end Loop

theorem Parser.residual_nil {p : Parser} (hinv : p.Inv) (t : δ) :
    Parser.residual d (p, t) [] = ([], p.failed) := by
  rcases hinv with hfailed | ⟨hn, -⟩ | ⟨hpos, hp⟩
  · rw [Parser.residual_failed d hfailed, hfailed]
  · by_cases hfailed : p.failed = true
    · rw [Parser.residual_failed d hfailed, hfailed]
    · have hshort : (p.header.bytes.take p.nread ++ []).length ≤ 8 := by simp
      have halive : p.failed = false := by simpa using hfailed
      rw [Parser.residual_alive d halive, Parser.resume, if_pos hn, reference_short d t hshort,
        halive]
      rfl
  · have hn : ¬ p.nread ≤ 8 := by
      have := hp.nread
      omega
    have hneed : 0 < p.header.size.toNat - p.msgsize := by
      have := hp.msgsize_lt
      omega
    have hquiet : p.inBody d t [] = ⟨[], false⟩ := by
      unfold Parser.inBody
      split_ifs
      · exact reference_short d t (by simp)
      · rw [body, if_pos (by simpa using hneed)]
    simp [Parser.residual, hp.alive, Parser.resume, hn, hquiet, Outcome.events]

/-- One call of `process` produces what is due on its chunk. -/
theorem Parser.process_residual (s : Parser × δ) (c : Chunk) (hinv : s.1.Inv) :
    ∃ s' o, (Parser.machine d).step s c = .ok (s', o) ∧ s'.1.Inv ∧
      ∀ rest, Parser.residual d s (c.bytes ++ rest) =
        (o ++ (Parser.residual d s' rest).1, (Parser.residual d s' rest).2) := by
  obtain ⟨p, t⟩ := s
  by_cases hfailed : p.failed = true
  · refine ⟨(p, t), [], by simp [Parser.machine, Parser.process, hfailed, Except.map], hinv, ?_⟩
    intro rest
    simp [Parser.residual_failed d hfailed]
  · have halive : p.failed = false := by simpa using hfailed
    obtain ⟨l', r, o, hloop, hinv', hevents, hrest⟩ := Loop.loop_pass d c.size_le (2 * c.size + 2)
      (l := ⟨p, t, 0, []⟩) (Nat.zero_le _) halive hinv
      (by simp only [Loop.budget]; split_ifs <;> omega)
    refine ⟨(l'.parser, l'.dispatcher), o, ?_, hinv', fun rest => hrest rest⟩
    rw [List.nil_append] at hevents
    simp [Parser.machine, Parser.process, hfailed, hloop, Except.map, hevents]

/-- A fresh parser, fed in chunks, does what is due on the whole stream. -/
theorem Parser.run_fresh (t : δ) (chunks : List Chunk) :
    ∃ p t', (Parser.machine d).run (Parser.fresh, t) chunks =
        .ok ((p, t'), (reference d t (chunks.flatMap Chunk.bytes)).events) ∧
      p.failed = (reference d t (chunks.flatMap Chunk.bytes)).failed := by
  have hfresh : Parser.fresh.Inv := .inr (.inl ⟨by decide, rfl⟩)
  obtain ⟨⟨p, t'⟩, out, hrun, hinv, hrest⟩ := (Parser.machine d).run_residual Chunk.bytes
    (Parser.residual d) (fun s => s.1.Inv) (Parser.process_residual d) chunks
    (s := (Parser.fresh, t)) hfresh
  have hstart : Parser.residual d (Parser.fresh, t) (chunks.flatMap Chunk.bytes ++ []) =
      ((reference d t (chunks.flatMap Chunk.bytes)).events,
        (reference d t (chunks.flatMap Chunk.bytes)).failed) := by
    rw [Parser.residual_alive d rfl, Loop.resume_next d rfl, List.append_nil]
  rw [hrest, Parser.residual_nil d hinv] at hstart
  simp only [List.append_nil, Prod.mk.injEq] at hstart
  exact ⟨p, t', by rw [hrun, hstart.1], hstart.2⟩

theorem Outcome.count_close_le (o : Outcome) : o.events.count .close ≤ 1 := by
  have hpayloads : (o.payloads.map Event.onMessage).count .close = 0 := by
    apply List.count_eq_zero_of_not_mem
    simp
  rw [Outcome.events, List.count_append, hpayloads]
  split_ifs <;> simp

/-- Whatever the dispatcher answers and however the stream is cut, a fresh
parser does what the reference decoder does with the whole stream, and closes
the connection at most once. -/
theorem process_refines_reference (t : δ) (chunks : List Chunk) :
    ∃ p t' events, (Parser.machine d).run (Parser.fresh, t) chunks = .ok ((p, t'), events) ∧
      events = (reference d t (chunks.flatMap Chunk.bytes)).events ∧
      p.failed = (reference d t (chunks.flatMap Chunk.bytes)).failed ∧
      events.count .close ≤ 1 := by
  obtain ⟨p, t', hrun, hfailed⟩ := Parser.run_fresh d t chunks
  exact ⟨p, t', _, hrun, rfl, hfailed, Outcome.count_close_le _⟩

end NetComponents.Scgi
