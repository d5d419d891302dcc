import NetComponents.Library.While
import NetComponents.Scgi.Reference

/-!
# The loop of the SCGI parser

The invariant of the loop in `Parser::process`, which holds whenever the loop tests its condition,
and what it says about a pass: how much of the body is missing is not negative, and the copy stays
inside the chunk and inside the message buffer. The invariant reaches over the calls: a body may
have begun in an earlier chunk.
-/

namespace NetComponents.Scgi

open Library

variable {δ : Type} (d : Dispatcher δ)

namespace Parser

/-- What is true of a parser at the head of the loop. -/
structure LoopInvariant (p : Parser) : Prop where
  header : p.nread ≤ 8 → p.msgsize = 0
  body : 8 < p.nread → p.nread = 8 + p.msgsize ∧ 0 < p.msgsize ∧ p.msgsize < p.header.size.toNat
  buffered : 8 < p.nread → p.skipmsg = false →
    p.msgbuf.length = p.header.size.toNat ∧ p.header.size.toNat ≤ 1024 * 1024

/-- A body that is kept was announced within the limit. -/
def Limited (p : Parser) : Prop := 8 < p.nread → p.skipmsg = false → p.header.overflow = false

theorem loopInvariant {p : Parser} (halive : p.failed = false) (hinv : p.Inv)
    (hlimited : p.Limited) : p.LoopInvariant := by
  rcases hinv with hfailed | ⟨hn, hm⟩ | ⟨hpos, hp⟩
  · simp [halive] at hfailed
  · exact ⟨fun _ => hm, fun h => by omega, fun h => by omega⟩
  · have hn := hp.nread
    constructor
    · intro h
      omega
    · intro _
      exact ⟨hn, hpos, hp.msgsize_lt⟩
    · intro h hskip
      have hover := p.header.overflow_iff.not.mp (by simp [hlimited h hskip])
      exact ⟨hp.buffered hskip, by omega⟩

end Parser

namespace Loop

/-- The variables where a pass comes to `size_t needs = header_.size - msgsize_`, if it does. -/
def toBody (l : Loop δ) : Option (Loop δ) :=
  let p := l.parser
  if p.nread < Header.bytesize then none
  else if p.nread = Header.bytesize then
    if !p.header.valid then none
    else if p.header.overflow then some { l with parser := { p with skipmsg := true } }
    else if p.header.size = 0 then none
    else some { l with parser := { p with
      skipmsg := false, msgsize := 0, msgbuf := resize p.msgbuf p.header.size.toNat } }
  else some l

/-- The three ways into the body: a message begins that is skipped, one that is kept, or a body
goes on that an earlier pass has begun. -/
theorem toBody_cases {l l₁ : Loop δ} (h : l.toBody = some l₁) :
    (l.parser.nread = 8 ∧ l.parser.header.valid = true ∧ l.parser.header.overflow = true ∧
      l₁ = { l with parser := { l.parser with skipmsg := true } }) ∨
    (l.parser.nread = 8 ∧ l.parser.header.valid = true ∧ l.parser.header.overflow = false ∧
      l.parser.header.size ≠ 0 ∧
      l₁ = { l with parser := { l.parser with
        skipmsg := false, msgsize := 0
        msgbuf := resize l.parser.msgbuf l.parser.header.size.toNat } }) ∨
    (8 < l.parser.nread ∧ l₁ = l) := by
  unfold toBody Header.bytesize at h
  dsimp only at h
  split_ifs at h with hlt hn hvalid hover hzero
  · cases h
    exact .inl ⟨hn, by simpa using hvalid, hover, rfl⟩
  · cases h
    exact .inr (.inl ⟨hn, by simpa using hvalid, by simpa using hover, hzero, rfl⟩)
  · cases h
    exact .inr (.inr ⟨by omega, rfl⟩)

theorem iterate_toBody {l l₁ : Loop δ} (h : l.toBody = some l₁) (buf : Bytes) (size : ℕ) :
    iterate d buf size l = consume d buf size l₁ := by
  rcases toBody_cases h with ⟨hn, hvalid, hover, rfl⟩ | ⟨hn, hvalid, hover, hzero, rfl⟩ | ⟨hn, rfl⟩
  · simp [iterate, Header.bytesize, hn, hvalid, hover]
  · simp [iterate, Header.bytesize, hn, hvalid, hover, hzero]
  · have hlt : ¬ l₁.parser.nread < 8 := by omega
    have hne : ¬ l₁.parser.nread = 8 := by omega
    simp [iterate, Header.bytesize, hlt, hne]

/-- A pass that does not come to the body: it reads a header byte, refuses the header or drops an
empty message. -/
def headerPass (buf : Bytes) (l : Loop δ) : Exec (Loop δ × Bool) :=
  let p := l.parser
  if p.nread < Header.bytesize then
    (read buf l.i 1).map fun b =>
      let header := p.header.setByte p.nread (b.headD 0)
      ({ l with parser := { p with header := header, nread := p.nread + 1 }, i := l.i + 1 }, true)
  else if !p.header.valid then .ok (l.fail, false)
  else .ok ({ l with parser := { p with
    skipmsg := false, msgsize := 0, msgbuf := resize p.msgbuf 0, nread := 0 } }, true)

theorem iterate_headerPass {l : Loop δ} (h : l.toBody = none) (buf : Bytes) (size : ℕ) :
    iterate d buf size l = headerPass buf l := by
  unfold toBody Header.bytesize at h
  dsimp only at h
  split_ifs at h with hlt hn hvalid hover hzero
  · simp [iterate, headerPass, Header.bytesize, hlt]
  · simp [iterate, headerPass, Header.bytesize, hn, hvalid]
  · simp [iterate, headerPass, Header.bytesize, hn, hvalid, hover, hzero]

theorem headerPass_nread_le {buf : Bytes} {l l' : Loop δ} (h : headerPass buf l = .ok (l', true)) :
    l'.parser.nread ≤ 8 := by
  unfold headerPass Header.bytesize at h
  dsimp only at h
  split_ifs at h with hlt hvalid
  · cases hread : read buf l.i 1 with
    | error e => simp [hread, Except.map] at h
    | ok b =>
      rw [hread] at h
      cases h
      exact hlt
  · cases h
  · cases h
    exact Nat.zero_le _

/-- A body that begins, or goes on, is not empty, and room was made for it if it is kept. -/
theorem toBody_inBody {l l₁ : Loop δ} (halive : l.parser.failed = false)
    (hinv : l.parser.LoopInvariant) (h : l.toBody = some l₁) : l₁.parser.InBody ∧ l₁.i = l.i := by
  rcases toBody_cases h with ⟨hn, -, hover, rfl⟩ | ⟨hn, -, -, hzero, rfl⟩ | ⟨hn, rfl⟩
  · have hm := hinv.header (by omega)
    have hbig := l.parser.header.overflow_iff.mp hover
    have hpos : l.parser.msgsize < l.parser.header.size.toNat := by omega
    exact ⟨⟨halive, by simp only [hn, hm], hpos, by simp⟩, rfl⟩
  · have hpos : 0 < l.parser.header.size.toNat := by
      rwa [Nat.pos_iff_ne_zero, Ne, l.parser.header.toNat_size_eq_zero_iff]
    exact ⟨⟨halive, hn, hpos, by simp⟩, rfl⟩
  · obtain ⟨hnread, -, hlt⟩ := hinv.body hn
    exact ⟨⟨halive, hnread, hlt, fun hskip => (hinv.buffered hn hskip).1⟩, rfl⟩

/-- The copy of a pass: what is missing is not negative, the source lies in the chunk and the
destination in the message buffer. -/
structure CopyInside (c : Chunk) (l : Loop δ) : Prop where
  missing : l.parser.msgsize ≤ l.parser.header.size.toNat
  chunk : l.i + l.needs c.size ≤ c.size
  msgbuf : l.parser.skipmsg = false → l.parser.msgsize + l.needs c.size ≤ l.parser.msgbuf.length

theorem copyInside {c : Chunk} {l : Loop δ} (hi : l.i < c.size) (hp : l.parser.InBody) :
    CopyInside c l := by
  have hlt := hp.msgsize_lt
  obtain ⟨-, hchunk, hmissing, -⟩ := needs_bounds hi hp
  constructor
  · exact hlt.le
  · omega
  · intro hskip
    have hlen := hp.buffered hskip
    omega

section Limit

theorem finish_next {l l' : Loop δ} {n : ℕ} (h : finish d l n = (l', true)) :
    l'.parser.nread = 0 := by
  by_cases hskip : l.parser.skipmsg = true
  · rw [finish_skipped d n hskip] at h
    cases h
    rfl
  · have hkeep : l.parser.skipmsg = false := by simpa using hskip
    by_cases hret : (d.onMessage l.dispatcher l.parser.msgbuf).1 = .returned true
    · rw [finish_accepted d n hkeep hret] at h
      cases h
      rfl
    · rw [finish_refused d n hkeep hret] at h
      cases h

theorem consume_next {buf : Bytes} {size : ℕ} {l l' : Loop δ}
    (h : consume d buf size l = .ok (l', true)) :
    l'.parser.nread = 0 ∨
      l'.parser.header = l.parser.header ∧ l'.parser.skipmsg = l.parser.skipmsg := by
  cases hcopy : l.copyBody buf (l.needs size) with
  | error e => simp [consume, hcopy, Except.map] at h
  | ok msgbuf =>
    rw [consume_eq d hcopy] at h
    split_ifs at h with hdone
    · exact .inl (finish_next d (Except.ok.inj h))
    · cases h
      exact .inr ⟨rfl, rfl⟩

theorem toBody_limited {l l₁ : Loop δ} (hlimited : l.parser.Limited) (h : l.toBody = some l₁)
    (hskip : l₁.parser.skipmsg = false) : l₁.parser.header.overflow = false := by
  rcases toBody_cases h with ⟨-, -, -, rfl⟩ | ⟨-, -, hover, -, rfl⟩ | ⟨hn, rfl⟩
  · cases hskip
  · exact hover
  · exact hlimited hn hskip

theorem iterate_limited {buf : Bytes} {size : ℕ} {l l' : Loop δ} (hlimited : l.parser.Limited)
    (h : iterate d buf size l = .ok (l', true)) : l'.parser.Limited := by
  intro hn hskip
  cases hbody : l.toBody with
  | some l₁ =>
    rw [iterate_toBody d hbody] at h
    rcases consume_next d h with hnext | ⟨hheader, hskip'⟩
    · omega
    · rw [hheader]
      exact toBody_limited hlimited hbody (hskip' ▸ hskip)
  | none =>
    rw [iterate_headerPass d hbody] at h
    have hle := headerPass_nread_le h
    omega

end Limit

/-- `while (i < size)` in a call of `process`. -/
def whileLoop (c : Chunk) : While Stop (Loop δ) where
  cond l := l.i < c.size
  body := iterate d c.buf c.size

theorem loop_eq_run (c : Chunk) (fuel : ℕ) (l : Loop δ) :
    loop d c.buf c.size fuel l = (whileLoop d c).run .outOfFuel fuel l := by
  induction fuel generalizing l with
  | zero => rfl
  | succ fuel ih =>
    by_cases hlt : l.i < c.size
    · cases hstep : iterate d c.buf c.size l with
      | error e => simp [loop, While.run, whileLoop, hlt, hstep]
      | ok r =>
        obtain ⟨l', go⟩ := r
        cases go with
        | false => simp [loop, While.run, whileLoop, hlt, hstep]
        | true => simpa [loop, While.run, whileLoop, hlt, hstep] using ih l'
    · simp [loop, While.run, whileLoop, hlt]

/-- What is kept from one head of the loop to the next. -/
structure AtHead (c : Chunk) (l : Loop δ) : Prop where
  alive : l.parser.failed = false
  inv : l.parser.Inv
  limited : l.parser.Limited
  within : l.i ≤ c.size

/-- A pass consumes some of the chunk, or drops the header of an empty message. -/
theorem whileLoop_total (c : Chunk) : (whileLoop d c).Total (AtHead c) (budget c.size) := by
  intro l h hcond
  have hi : l.i < c.size := by simpa [whileLoop] using hcond
  obtain ⟨l', go, hstep, hpass, hgo⟩ := iterate_pass d c.size_le hi h.alive h.inv
  refine ⟨l', go, hstep, ?_⟩
  rintro rfl
  constructor
  · exact ⟨hpass.failed, hpass.inv, iterate_limited d h.limited hstep, hpass.within rfl⟩
  · exact hgo rfl

theorem budget_start (c : Chunk) (p : Parser) (t : δ) :
    budget c.size ⟨p, t, 0, []⟩ ≤ 2 * c.size + 1 := by
  simp only [budget]
  split_ifs <;> omega

end Loop

namespace Parser

/-- What is kept from one call of `process` to the next. -/
structure Kept (p : Parser) : Prop where
  inv : p.Inv
  limited : p.failed = false → p.Limited

theorem kept_fresh : fresh.Kept := by
  constructor
  · exact .inr (.inl ⟨by decide, rfl⟩)
  · intro _ hn
    cases hn

theorem Kept.atHead {p : Parser} (h : p.Kept) (halive : p.failed = false) (t : δ) (c : Chunk) :
    Loop.AtHead c ⟨p, t, 0, []⟩ where
  alive := halive
  inv := h.inv
  limited := h.limited halive
  within := Nat.zero_le _

/-- A call that has not failed before executes the loop to its end. -/
theorem process_leaves {p : Parser} (h : p.Kept) (halive : p.failed = false) (t : δ)
    (c : Chunk) :
    ∃ l r, p.process d t c = .ok (l, r) ∧ (Loop.whileLoop d c).Leaves ⟨p, t, 0, []⟩ l r := by
  have hfuel := Nat.lt_succ_of_le (Loop.budget_start c p t)
  obtain ⟨l, r, hrun, hleaves⟩ :=
    (Loop.whileLoop_total d c).run .outOfFuel (h.atHead halive t c) hfuel
  refine ⟨l, r, ?_, hleaves⟩
  rw [process, if_neg (by simp [halive]), Loop.loop_eq_run, hrun]

theorem Kept.leaves {p : Parser} (h : p.Kept) (halive : p.failed = false) {t : δ} {c : Chunk}
    {l : Loop δ} {r : Bool} (hleaves : (Loop.whileLoop d c).Leaves ⟨p, t, 0, []⟩ l r) :
    l.parser.Kept := by
  have hstart := h.atHead halive t c
  cases hleaves with
  | done hheads _ =>
    have hhead := ((Loop.whileLoop_total d c).heads hstart hheads).1
    exact ⟨hhead.inv, fun _ => hhead.limited⟩
  | @returned n l₀ _ hheads hcond hbody =>
    have hhead := ((Loop.whileLoop_total d c).heads hstart hheads).1
    have hi : l₀.i < c.size := by simpa [Loop.whileLoop] using hcond
    obtain ⟨l', go, hstep, hpass, -⟩ := Loop.iterate_pass d c.size_le hi hhead.alive hhead.inv
    cases hstep.symm.trans hbody
    exact ⟨hpass.inv, fun hlive => by simp [hpass.failed] at hlive⟩

theorem step_kept {p p' : Parser} {t t' : δ} {c : Chunk} {o : List Event} (h : p.Kept)
    (hstep : (machine d).step (p, t) c = .ok ((p', t'), o)) : p'.Kept := by
  by_cases hfailed : p.failed = true
  · simp only [machine, process, if_pos hfailed, Except.map] at hstep
    cases hstep
    exact h
  · have halive : p.failed = false := by simpa using hfailed
    obtain ⟨l, r, hprocess, hleaves⟩ := process_leaves d h halive t c
    simp only [machine, hprocess, Except.map] at hstep
    cases hstep
    exact h.leaves d halive hleaves

theorem run_kept {t t' : δ} {chunks : List Chunk} {p : Parser} {out : List Event}
    (hrun : (machine d).run (fresh, t) chunks = .ok ((p, t'), out)) : p.Kept := by
  refine (machine d).run_invariant (fun _ _ s => s.1.Kept) ?_ kept_fresh hrun
  intro _ _ s c s' o h hstep
  exact step_kept d h hstep

end Parser

/-- In every state that a parser reaches, and for every chunk, `process` returns. A failed parser
does not enter the loop; else the loop is left after at most two passes for each byte and one more.
At every head of the loop the invariant holds, and a pass that comes to the body finds no underflow
and copies inside both buffers. -/
theorem process_loopInvariant {t t' : δ} {chunks : List Chunk} {p : Parser} {out : List Event}
    (hrun : (Parser.machine d).run (Parser.fresh, t) chunks = .ok ((p, t'), out)) (c : Chunk) :
    (∃ l r, p.process d t' c = .ok (l, r) ∧
      ((p.failed = true ∧ l = ⟨p, t', 0, []⟩ ∧ r = false) ∨
        (p.failed = false ∧ (Loop.whileLoop d c).Leaves ⟨p, t', 0, []⟩ l r))) ∧
    ∀ n l, p.failed = false → (Loop.whileLoop d c).Heads ⟨p, t', 0, []⟩ n l →
      n ≤ 2 * c.size + 1 ∧ l.parser.LoopInvariant ∧
      (l.i < c.size →
        (∃ l₁, l.toBody = some l₁ ∧ Loop.CopyInside c l₁ ∧
          Loop.iterate d c.buf c.size l = Loop.consume d c.buf c.size l₁) ∨
        (l.toBody = none ∧ Loop.iterate d c.buf c.size l = Loop.headerPass c.buf l)) := by
  have hkept := Parser.run_kept d hrun
  constructor
  · by_cases hfailed : p.failed = true
    · exact ⟨_, _, by rw [Parser.process, if_pos hfailed], .inl ⟨hfailed, rfl, rfl⟩⟩
    · have halive : p.failed = false := by simpa using hfailed
      obtain ⟨l, r, hprocess, hleaves⟩ := Parser.process_leaves d hkept halive t' c
      exact ⟨l, r, hprocess, .inr ⟨halive, hleaves⟩⟩
  · intro n l halive hheads
    obtain ⟨hhead, hle⟩ := (Loop.whileLoop_total d c).heads (hkept.atHead halive t' c) hheads
    have hbudget := Loop.budget_start c p t'
    have hinv := Parser.loopInvariant hhead.alive hhead.inv hhead.limited
    refine ⟨by omega, hinv, ?_⟩
    intro hi
    cases hbody : l.toBody with
    | none => exact .inr ⟨rfl, Loop.iterate_headerPass d hbody _ _⟩
    | some l₁ =>
      obtain ⟨hin, hi₁⟩ := Loop.toBody_inBody hhead.alive hinv hbody
      exact .inl ⟨l₁, rfl, Loop.copyInside (hi₁ ▸ hi) hin, Loop.iterate_toBody d hbody _ _⟩

/-- A body of three bytes has begun in one chunk, and goes on in the next. -/
theorem process_loopInvariant_second_chunk :
    let d : Dispatcher ℕ := ⟨fun n _ => (.returned true, n + 1)⟩
    let p : Parser := ⟨[7, 0, 0], ⟨0xFB, 3⟩, false, false, 1, 9⟩
    (Parser.machine d).run (Parser.fresh, 0) [Chunk.full [0xFB, 0, 0, 0, 3, 0, 0, 0, 7]] =
      .ok ((p, 0), []) ∧
    ∀ n l, (Loop.whileLoop d (Chunk.full [8, 9])).Heads ⟨p, 0, 0, []⟩ n l →
      n ≤ 5 ∧ l.parser.LoopInvariant := by
  intro d p
  have hrun : (Parser.machine d).run (Parser.fresh, 0)
      [Chunk.full [0xFB, 0, 0, 0, 3, 0, 0, 0, 7]] = .ok ((p, 0), []) := by decide
  refine ⟨hrun, ?_⟩
  intro n l hheads
  obtain ⟨hn, hinv, -⟩ := (process_loopInvariant d hrun (Chunk.full [8, 9])).2 n l rfl hheads
  exact ⟨hn, hinv⟩

end NetComponents.Scgi
