import NetComponents.Livecapture.Client

/-!
# How long a client lives

A client is kept by its timer, its read and the packets that wait to be filtered, and by nothing
else once the accept callback has returned. The results: no handler runs on a client that is
destroyed, the termination signal is emitted once, and an ending client goes away after a bounded
number of handlers, in any order, unless its read was lost.
-/

namespace NetComponents.Livecapture

open Library Sockets

namespace Client

section Lifetime

variable {toISOString : Pcap.Timeval → String} {port : ℕ}

/-- What holds of a client even while a handler closes its socket. -/
structure Steady (c : Client) : Prop where
  early : c.phase = .constructing ∨ c.phase = .created → c.timer = .none ∧ c.reading = .none
  gone : c.phase = .destroying ∨ c.phase = .destroyed → ¬c.Held
  lost : c.reading = .lost → c.protocol = .websocket ∧ c.isOpen = false
  web : c.protocol = .websocket → c.reading ≠ .completed false

/-- Between two handlers, a socket that is closed has no read pending, and while a client reads
from an open one its timer runs. -/
structure Sound (c : Client) : Prop extends c.Steady where
  closed : c.isOpen = false → c.reading ≠ .pending
  timed : c.isOpen = true → c.reading = .pending ∨ c.reading = .completed false →
    c.timer = .waiting ∨ c.timer = .expired

variable {c c' : Client} {out : List Output}

def terminations (out : List Output) : ℕ :=
  out.countP fun
    | .terminated => true
    | _ => false

theorem serve_eq {h : Handler Message} (hserve : c.serve h = some (c', out)) :
    ∃ connection, c' = { c with connection := connection } ∧ terminations out = 0 := by
  unfold serve at hserve
  cases hstep : BaseConnection.step (transport c.protocol) c.connection h with
  | error fault => simp [hstep] at hserve
  | ok r =>
    simp only [hstep, Option.some.injEq, Prod.mk.injEq] at hserve
    obtain ⟨rfl, rfl⟩ := hserve
    exact ⟨_, rfl, by simp [terminations]⟩

theorem sound_fresh (protocol : Protocol) (filter : Bytes) (termination : Bool) :
    (fresh protocol filter termination).Sound := by
  refine ⟨⟨fun _ => ⟨rfl, rfl⟩, ?_, nofun, fun _ => nofun⟩, nofun, ?_⟩
  · simp [fresh]
  · simp [fresh]

theorem Steady.cancel (h : c.Steady) : c.cancel.Steady where
  early hphase := by
    obtain ⟨htimer, hreading⟩ := h.early hphase
    exact ⟨by simp [Client.cancel, htimer], hreading⟩
  gone hphase := by
    have hgone := h.gone hphase
    simp only [Held, not_or, not_not] at hgone ⊢
    exact ⟨by simp [Client.cancel, hgone.1], hgone.2⟩
  lost := h.lost
  web := h.web

theorem Steady.stopTimer (h : c.Steady) : { c with timer := .none }.Steady where
  early hphase := ⟨rfl, (h.early hphase).2⟩
  gone hphase := by
    have hgone := h.gone hphase
    simp only [Held, not_or, not_not] at hgone ⊢
    exact ⟨trivial, hgone.2⟩
  lost := h.lost
  web := h.web

theorem reading_close : c.reading ≠ .pending ∧ c.close.reading = c.reading ∨
    c.reading = .pending ∧ c.close.reading = .completed true := by
  unfold close
  by_cases hpending : c.reading = .pending
  · exact .inr ⟨hpending, by simp [hpending]⟩
  · exact .inl ⟨hpending, by simp [hpending]⟩

theorem Steady.close (h : c.Steady) : c.close.Sound where
  early hphase := by
    obtain ⟨htimer, hreading⟩ := h.early hphase
    exact ⟨htimer, by simp [Client.close, hreading]⟩
  gone hphase := by
    have hgone := h.gone hphase
    simp only [Held, not_or, not_not] at hgone ⊢
    exact ⟨hgone.1, by simp [Client.close, hgone.2.1], hgone.2.2⟩
  lost hlost := by
    rcases c.reading_close with ⟨-, hreading⟩ | ⟨-, hreading⟩
    · exact ⟨(h.lost (hreading ▸ hlost)).1, rfl⟩
    · simp [hreading] at hlost
  web hweb := by
    rcases c.reading_close with ⟨-, hreading⟩ | ⟨-, hreading⟩
    · rw [hreading]
      exact h.web hweb
    · simp [hreading]
  closed _ := by
    rcases c.reading_close with ⟨hother, hreading⟩ | ⟨-, hreading⟩
    · rwa [hreading]
    · simp [hreading]
  timed := nofun

/-- The phases in which handlers hold the client, and the accept callback may. -/
def Active (c : Client) : Prop := c.phase = .started ∨ c.phase = .released

theorem Active.not_early (h : c.Active) : ¬(c.phase = .constructing ∨ c.phase = .created) := by
  rcases h with h | h <;> simp [h]

theorem Active.not_gone (h : c.Active) : ¬(c.phase = .destroying ∨ c.phase = .destroyed) := by
  rcases h with h | h <;> simp [h]

theorem Active.startRead (hactive : c.Active)
    (htimer : c.isOpen = true → c.timer = .waiting ∨ c.timer = .expired) : c.startRead.Sound := by
  have hreading : c.startRead.reading = .pending ∧ c.isOpen = true ∨
      c.startRead.reading = .completed true ∧ c.isOpen = false ∨
      c.startRead.reading = .lost ∧ c.isOpen = false ∧ c.protocol = .websocket := by
    unfold Client.startRead
    cases hopen : c.isOpen with
    | true => exact .inl ⟨rfl, rfl⟩
    | false =>
      cases hprotocol : c.protocol with
      | tcp => exact .inr (.inl ⟨rfl, rfl⟩)
      | websocket => exact .inr (.inr ⟨rfl, rfl, rfl⟩)
  refine ⟨⟨fun hearly => absurd hearly hactive.not_early,
    fun hgone => absurd hgone hactive.not_gone, ?_, ?_⟩, ?_, fun hopen _ => htimer hopen⟩
  · intro hlost
    rcases hreading with ⟨hread, -⟩ | ⟨hread, -⟩ | ⟨-, hopen, hprotocol⟩
    · simp [hread] at hlost
    · simp [hread] at hlost
    · exact ⟨hprotocol, hopen⟩
  · intro _
    rcases hreading with ⟨hread, -⟩ | ⟨hread, -⟩ | ⟨hread, -⟩ <;> simp [hread]
  · intro hclosed
    have hclosed : c.isOpen = false := hclosed
    rcases hreading with ⟨-, hopen⟩ | ⟨hread, -⟩ | ⟨hread, -⟩
    · simp [hclosed] at hopen
    · simp [hread]
    · simp [hread]

theorem Steady.active (h : c.Steady) (hheld : c.timer ≠ .none ∨ c.reading ≠ .none) :
    c.Active := by
  have hearly : ¬(c.phase = .constructing ∨ c.phase = .created) := by
    intro hphase
    obtain ⟨htimer, hreading⟩ := h.early hphase
    rcases hheld with hheld | hheld
    · exact hheld htimer
    · exact hheld hreading
  have hgone : ¬(c.phase = .destroying ∨ c.phase = .destroyed) := by
    intro hphase
    have hnone := h.gone hphase
    simp only [Held, not_or, not_not] at hnone
    rcases hheld with hheld | hheld
    · exact hheld hnone.1
    · exact hheld hnone.2.1
  unfold Active
  cases hphase : c.phase <;> simp [hphase] at hearly hgone ⊢

/-- What an event does to the lifetime of a client. -/
inductive Effect (c : Client) : Event → Client → List Output → Prop where
  | constructed (hphase : c.phase = .constructing) :
      Effect c .constructed { c with phase := .created } []
  | starts (hphase : c.phase = .created) :
      Effect c (.start false) (startRead { c with phase := .started, timer := .waiting }) []
  | throws (hphase : c.phase = .created) :
      Effect c (.start true) { c with phase := .started, timer := .waiting } []
  | released (hphase : c.phase = .created ∨ c.phase = .started) :
      Effect c .release { c with phase := .released } []
  | packet (p : Pcap.Packet)
      (hphase : c.phase = .created ∨ c.phase = .started ∨ c.phase = .released) :
      Effect c (.packet p) { c with posted := c.posted ++ [p] } [.posted p]
  | runs (i : ℕ) (hi : i < c.posted.length) (strand : List Message) (out : List Output)
      (hout : terminations out = 0) :
      Effect c (.run i) { c with posted := c.posted.eraseIdx i, strand := strand } out
  | expires (htimer : c.timer = .waiting) : Effect c .expire { c with timer := .expired } []
  | expired (htimer : c.timer = .expired) : Effect c .timer (close { c with timer := .none }) []
  | aborted (htimer : c.timer = .aborted) : Effect c .timer { c with timer := .none } []
  | completes (error : Bool) (hreading : c.reading = .pending) (hprotocol : c.protocol = .tcp) :
      Effect c (.complete error) { c with reading := .completed error } []
  | reads (hreading : c.reading = .completed false) : Effect c .read c.startRead []
  | ends (hreading : c.reading = .completed true) :
      Effect c .read (cancel { c with reading := .none }) []
  | hangs (hprotocol : c.protocol = .websocket) : Effect c .hangup c.close []
  | terminates : Effect c .terminate (close (cancel { c with termination := false })) []
  | ignores : Effect c .terminate c []
  | destructed (hphase : c.phase = .destroying) :
      Effect c .destructed { c with phase := .destroyed, termination := false } [.terminated]
  | serves (e : Event) (he : e = .strand ∨ ∃ error n, e = .sent error n) (strand : List Message)
      (connection : BaseConnection Message) (out : List Output) (hout : terminations out = 0) :
      Effect c e { c with strand := strand, connection := connection } out

theorem fire_effect {e : Event} (hfire : c.fire toISOString port e = some (c', out)) :
    c.Effect e c' out := by
  cases e with
  | constructed =>
    simp only [fire, Option.ite_none_right_eq_some, Option.some.injEq, Prod.mk.injEq] at hfire
    obtain ⟨hphase, rfl, rfl⟩ := hfire
    exact .constructed hphase
  | start throws =>
    simp only [fire, Option.ite_none_right_eq_some, Option.some.injEq, Prod.mk.injEq] at hfire
    obtain ⟨hphase, rfl, rfl⟩ := hfire
    cases throws with
    | true => exact .throws hphase
    | false => exact .starts hphase
  | release =>
    simp only [fire, Option.ite_none_right_eq_some, Option.some.injEq, Prod.mk.injEq] at hfire
    obtain ⟨hphase, rfl, rfl⟩ := hfire
    exact .released hphase
  | packet p =>
    simp only [fire, Option.ite_none_right_eq_some, Option.some.injEq, Prod.mk.injEq] at hfire
    obtain ⟨hphase, rfl, rfl⟩ := hfire
    exact .packet p hphase
  | run i =>
    cases hi : c.posted[i]? with
    | none => simp [fire, hi] at hfire
    | some p =>
      have hlt := (List.getElem?_eq_some_iff.mp hi).1
      simp only [fire, hi] at hfire
      split_ifs at hfire
      · simp only [Option.some.injEq, Prod.mk.injEq] at hfire
        obtain ⟨rfl, rfl⟩ := hfire
        exact .runs i hlt _ _ rfl
      · simp only [Option.some.injEq, Prod.mk.injEq] at hfire
        obtain ⟨rfl, rfl⟩ := hfire
        exact .runs i hlt _ _ rfl
  | expire =>
    simp only [fire, Option.ite_none_right_eq_some, Option.some.injEq, Prod.mk.injEq] at hfire
    obtain ⟨htimer, rfl, rfl⟩ := hfire
    exact .expires htimer
  | timer =>
    cases htimer : c.timer with
    | none => simp [fire, htimer] at hfire
    | waiting => simp [fire, htimer] at hfire
    | expired =>
      simp only [fire, htimer, Option.some.injEq, Prod.mk.injEq] at hfire
      obtain ⟨rfl, rfl⟩ := hfire
      exact .expired htimer
    | aborted =>
      simp only [fire, htimer, Option.some.injEq, Prod.mk.injEq] at hfire
      obtain ⟨rfl, rfl⟩ := hfire
      exact .aborted htimer
  | complete error =>
    simp only [fire, Option.ite_none_right_eq_some, Option.some.injEq, Prod.mk.injEq] at hfire
    obtain ⟨⟨hreading, hprotocol⟩, rfl, rfl⟩ := hfire
    exact .completes error hreading hprotocol
  | read =>
    cases hreading : c.reading with
    | none => simp [fire, hreading] at hfire
    | pending => simp [fire, hreading] at hfire
    | lost => simp [fire, hreading] at hfire
    | completed error =>
      cases error with
      | false =>
        simp only [fire, hreading, Option.some.injEq, Prod.mk.injEq] at hfire
        obtain ⟨rfl, rfl⟩ := hfire
        exact .reads hreading
      | true =>
        simp only [fire, hreading, Option.some.injEq, Prod.mk.injEq] at hfire
        obtain ⟨rfl, rfl⟩ := hfire
        exact .ends hreading
  | hangup =>
    simp only [fire, Option.ite_none_right_eq_some, Option.some.injEq, Prod.mk.injEq] at hfire
    obtain ⟨⟨hprotocol, -⟩, rfl, rfl⟩ := hfire
    exact .hangs hprotocol
  | terminate =>
    simp only [fire, Option.some.injEq, Prod.mk.injEq] at hfire
    obtain ⟨rfl, rfl⟩ := hfire
    split_ifs
    · exact .terminates
    · exact .ignores
  | destructed =>
    simp only [fire, Option.ite_none_right_eq_some, Option.some.injEq, Prod.mk.injEq] at hfire
    obtain ⟨hphase, rfl, rfl⟩ := hfire
    exact .destructed hphase
  | strand =>
    cases hstrand : c.strand with
    | nil => simp [fire, hstrand] at hfire
    | cons msg rest =>
      simp only [fire, hstrand] at hfire
      obtain ⟨connection, rfl, hout⟩ := serve_eq hfire
      exact .serves .strand (.inl rfl) rest connection out hout
  | sent error nwritten =>
    obtain ⟨connection, rfl, hout⟩ := serve_eq hfire
    exact .serves (.sent error nwritten) (.inr ⟨error, nwritten, rfl⟩) c.strand connection out hout

theorem Sound.effect (h : c.Sound) {e : Event} (heffect : c.Effect e c' out) : c'.Sound := by
  cases heffect with
  | constructed hphase =>
    exact ⟨⟨fun _ => h.early (.inl hphase), by simp, h.lost, h.web⟩, h.closed, h.timed⟩
  | starts hphase => exact Active.startRead (.inl rfl) fun _ => .inl rfl
  | throws hphase =>
    exact ⟨⟨by simp, by simp, h.lost, h.web⟩, h.closed, fun _ _ => .inl rfl⟩
  | released hphase => exact ⟨⟨by simp, by simp, h.lost, h.web⟩, h.closed, h.timed⟩
  | packet p hphase =>
    refine ⟨⟨h.early, ?_, h.lost, h.web⟩, h.closed, h.timed⟩
    rintro (hgone | hgone)
    · have hgone : c.phase = .destroying := hgone
      simp [hgone] at hphase
    · have hgone : c.phase = .destroyed := hgone
      simp [hgone] at hphase
  | runs i hi strand out hout =>
    refine ⟨⟨h.early, ?_, h.lost, h.web⟩, h.closed, h.timed⟩
    intro hgone
    have hnone := h.gone hgone
    simp only [Held, not_or, not_not] at hnone
    simp [hnone.2.2] at hi
  | expires htimer =>
    have hactive := h.active (.inl (by simp [htimer]))
    exact ⟨⟨fun hearly => absurd hearly hactive.not_early,
      fun hgone => absurd hgone hactive.not_gone, h.lost, h.web⟩, h.closed, fun _ _ => .inr rfl⟩
  | expired htimer => exact h.stopTimer.close
  | aborted htimer =>
    refine ⟨h.stopTimer, h.closed, ?_⟩
    intro hopen hreading
    have hruns := h.timed hopen hreading
    simp [htimer] at hruns
  | completes error hreading hprotocol =>
    have hactive := h.active (.inr (by simp [hreading]))
    refine ⟨⟨fun hearly => absurd hearly hactive.not_early,
      fun hgone => absurd hgone hactive.not_gone, by simp, by simp [hprotocol]⟩, by simp, ?_⟩
    exact fun hopen _ => h.timed hopen (.inl hreading)
  | reads hreading =>
    have hactive := h.active (.inr (by simp [hreading]))
    exact hactive.startRead fun hopen => h.timed hopen (.inr hreading)
  | ends hreading =>
    have hactive := h.active (.inr (by simp [hreading]))
    have hdone : Steady { c with reading := .none } :=
      ⟨fun hearly => absurd hearly hactive.not_early,
        fun hgone => absurd hgone hactive.not_gone, nofun, fun _ => nofun⟩
    exact ⟨hdone.cancel, fun _ => nofun, by simp [cancel]⟩
  | hangs hprotocol => exact h.close
  | terminates =>
    have hquiet : Steady { c with termination := false } := ⟨h.early, h.gone, h.lost, h.web⟩
    exact hquiet.cancel.close
  | ignores => exact h
  | destructed hphase =>
    exact ⟨⟨by simp, fun _ => h.gone (.inl hphase), h.lost, h.web⟩, h.closed, h.timed⟩
  | serves e he strand connection out hout =>
    exact ⟨⟨h.early, h.gone, h.lost, h.web⟩, h.closed, h.timed⟩

/-- The last reference is dropped when a handler has run, and a client that is kept is held. -/
theorem Sound.settle (h : c.Sound) :
    c.settle.Sound ∧ (c.settle.phase = .released → c.settle.Held) := by
  unfold Client.settle
  split_ifs with hlast
  · exact ⟨⟨⟨by simp, fun _ => hlast.2, h.lost, h.web⟩, h.closed, h.timed⟩, by simp⟩
  · refine ⟨h, ?_⟩
    intro hreleased
    by_contra hheld
    exact hlast ⟨hreleased, hheld⟩

theorem settle_cases (c : Client) : c.settle = c ∨
    c.phase = .released ∧ c.settle = { c with phase := .destroying } := by
  unfold settle
  split_ifs with hlast
  · exact .inr ⟨hlast.1, rfl⟩
  · exact .inl rfl

theorem effect_terminations {e : Event} (h : c.Effect e c' out) :
    terminations out + (if c.phase = .destroyed then 1 else 0) =
      if c'.phase = .destroyed then 1 else 0 := by
  cases h with
  | constructed hphase => simp [terminations, hphase]
  | starts hphase => simp [terminations, startRead, hphase]
  | throws hphase => simp [terminations, hphase]
  | released hphase => rcases hphase with hphase | hphase <;> simp [terminations, hphase]
  | packet p hphase => simp [terminations]
  | runs i hi strand out hout => simp [hout]
  | serves e he strand connection out hout => simp [hout]
  | destructed hphase => simp [terminations, hphase]
  | _ => exact Nat.zero_add _

theorem effect_lost (hc : c.Sound) {e : Event} (h : c.Effect e c' out) :
    c'.protocol = c.protocol ∧ (c'.reading = .lost ↔
      c.reading = .lost ∨ e = .start false ∧ c.protocol = .websocket ∧ c.isOpen = false) := by
  have hclose : ∀ d : Client, d.close.reading = .lost ↔ d.reading = .lost := by
    intro d
    rcases d.reading_close with ⟨-, hreading⟩ | ⟨hpending, hreading⟩
    · rw [hreading]
    · simp [hreading, hpending]
  have hstart : ∀ d : Client, d.startRead.reading = .lost ↔
      d.protocol = .websocket ∧ d.isOpen = false := by
    intro d
    cases hprotocol : d.protocol <;> cases hopen : d.isOpen <;> simp [startRead, hprotocol, hopen]
  cases h with
  | starts hphase =>
    have hnone := (hc.early (.inr hphase)).2
    exact ⟨rfl, by simp [hstart, hnone]⟩
  | expired htimer => exact ⟨rfl, by simp [hclose]⟩
  | completes error hreading hprotocol => exact ⟨rfl, by simp [hreading]⟩
  | reads hreading =>
    refine ⟨rfl, ?_⟩
    rw [hstart]
    have hweb : c.protocol ≠ .websocket := fun hprotocol => hc.web hprotocol hreading
    simp [hweb, hreading]
  | ends hreading => exact ⟨rfl, by simp [cancel, hreading]⟩
  | hangs hprotocol => exact ⟨rfl, by simp [hclose]⟩
  | terminates => exact ⟨rfl, by simp [hclose, cancel]⟩
  | serves e he strand connection out hout =>
    refine ⟨rfl, ?_⟩
    have hother : e ≠ .start false := by
      rcases he with rfl | ⟨error, n, rfl⟩ <;> exact nofun
    simp [hother]
  | _ => exact ⟨rfl, by simp⟩

/-- The slot of the client posts the packets that it is called with. -/
def Alive (c : Client) : Prop := c.phase = .created ∨ c.phase = .started ∨ c.phase = .released

/-- The destructor of the client has begun. -/
def Late (c : Client) : Prop := c.phase = .destroying ∨ c.phase = .destroyed

instance (c : Client) : Decidable c.Alive := inferInstanceAs (Decidable (_ ∨ _))

/-- The phases come in one order. -/
theorem step_phase {e : Event} (hstep : c.step toISOString port e = .ok (c', out)) :
    (c.Alive → c'.Alive ∨ c'.Late) ∧ (c.Late → c'.Late) ∧
      (c'.phase = .constructing → c.phase = .constructing) := by
  obtain ⟨d, hfire, rfl⟩ := step_ok_iff.mp hstep
  have hd : (c.Alive → d.Alive ∨ d.Late) ∧ (c.Late → d.Late) ∧
      (d.phase = .constructing → c.phase = .constructing) := by
    unfold Alive Late
    cases fire_effect hfire with
    | constructed hphase => simp [hphase]
    | starts hphase => simp [startRead, hphase]
    | throws hphase => simp [hphase]
    | released hphase => rcases hphase with hphase | hphase <;> simp [hphase]
    | destructed hphase => simp [hphase]
    | _ => exact ⟨.inl, id, id⟩
  rcases d.settle_cases with h | ⟨hphase, h⟩
  · rw [h]
    exact hd
  · rw [h]
    refine ⟨fun _ => .inr (.inl rfl), fun _ => .inl rfl, nofun⟩

variable {events : List Event} {protocol : Protocol} {filter : Bytes} {termination : Bool}

theorem step_sound (hc : c.Sound) {e : Event} (hstep : c.step toISOString port e = .ok (c', out)) :
    c'.Sound ∧ (c'.phase = .released → c'.Held) := by
  obtain ⟨d, hfire, rfl⟩ := step_ok_iff.mp hstep
  exact (hc.effect (fire_effect hfire)).settle

theorem run_sound
    (hrun : (machine toISOString port).run (fresh protocol filter termination) events =
      .ok (c, out)) :
    c.Sound ∧ (c.phase = .released → c.Held) ∧
      terminations out = if c.phase = .destroyed then 1 else 0 := by
  have h := (machine toISOString port).run_invariant
    (fun _ out c => c.Sound ∧ (c.phase = .released → c.Held) ∧
      terminations out = if c.phase = .destroyed then 1 else 0)
    (by
      rintro is out c e c' o ⟨hsound, -, hcount⟩ hstep
      obtain ⟨hsound', hheld⟩ := step_sound hsound hstep
      refine ⟨hsound', hheld, ?_⟩
      obtain ⟨d, hfire, rfl⟩ := step_ok_iff.mp hstep
      have heffect := effect_terminations (fire_effect hfire)
      have hsettle : d.settle.phase = .destroyed ↔ d.phase = .destroyed := by
        rcases d.settle_cases with h | ⟨hphase, h⟩
        · rw [h]
        · simp [h, hphase]
      have happend : terminations (out ++ o) = terminations out + terminations o :=
        List.countP_append
      rw [happend, hcount]
      simp only [hsettle]
      omega)
    ⟨sound_fresh protocol filter termination, by simp [fresh], by simp [fresh, terminations]⟩ hrun
  exact h

/-- Over a whole life: the destructor begins when the accept callback has let go and no handler
holds the client, so that no handler runs on a client that is gone, and the signal for the server
is emitted once, when it ends. A client can be kept for ever by a read alone if it is one of a
websocket that was closed before `start()` asked for it. -/
theorem client_lifetime
    (hrun : (machine toISOString port).run (fresh protocol filter termination) events =
      .ok (c, out)) :
    terminations out = (if c.phase = .destroyed then 1 else 0) ∧
    (c.phase = .destroying ∨ c.phase = .destroyed → ¬c.Held) ∧
    (c.phase = .released → c.Held) ∧
    (c.reading = .lost ↔ protocol = .websocket ∧ ∃ before after, events =
      before ++ .start false :: after ∧ ∃ d o, (machine toISOString port).run
        (fresh protocol filter termination) before = .ok (d, o) ∧ d.isOpen = false) := by
  obtain ⟨hsound, hheld, hcount⟩ := run_sound hrun
  refine ⟨hcount, hsound.gone, hheld, ?_⟩
  have h := (machine toISOString port).run_invariant
    (fun is out c => (machine toISOString port).run (fresh protocol filter termination) is =
        .ok (c, out) ∧ c.protocol = protocol ∧
      (c.reading = .lost ↔ protocol = .websocket ∧ ∃ before after,
        is = before ++ .start false :: after ∧ ∃ d o, (machine toISOString port).run
          (fresh protocol filter termination) before = .ok (d, o) ∧ d.isOpen = false))
    (by
      rintro is out c e c' o ⟨hruns, hprotocol, hlost⟩ hstep
      refine ⟨(machine toISOString port).run_snoc hruns hstep, ?_⟩
      obtain ⟨d, hfire, rfl⟩ := step_ok_iff.mp hstep
      obtain ⟨hsame, hread⟩ := effect_lost (run_sound hruns).1 (fire_effect hfire)
      have hsettle : d.settle.protocol = d.protocol ∧ d.settle.reading = d.reading := by
        rcases d.settle_cases with h | ⟨-, h⟩ <;> simp [h]
      rw [hsettle.1, hsettle.2, hsame, hread, hlost, hprotocol]
      refine ⟨rfl, ?_⟩
      constructor
      · rintro (⟨hweb, before, after, rfl, hbefore⟩ | ⟨rfl, hweb, hclosed⟩)
        · exact ⟨hweb, before, after ++ [e], by simp, hbefore⟩
        · exact ⟨hweb, is, [], rfl, c, out, hruns, hclosed⟩
      · rintro ⟨hweb, before, after, heq, u, o', hbefore, hclosed⟩
        cases after using List.reverseRecOn with
        | nil =>
          obtain ⟨rfl, he⟩ := List.append_inj' heq rfl
          obtain rfl : e = .start false := by simpa using he
          obtain ⟨rfl, -⟩ := Prod.mk.inj (Except.ok.inj (hruns.symm.trans hbefore))
          exact .inr ⟨rfl, hweb, hclosed⟩
        | append_singleton after last =>
          rw [← List.cons_append, ← List.append_assoc] at heq
          obtain ⟨rfl, -⟩ := List.append_inj' heq rfl
          exact .inl ⟨hweb, before, after, rfl, u, o', hbefore, hclosed⟩)
    ⟨rfl, rfl, by simp [fresh]⟩ hrun
  exact h.2.2

/-- A client on a TCP connection that its server terminates, and one whose websocket has been
closed before the read. -/
theorem client_lifetime_two :
    (∃ c out, (machine (fun _ => "") 0).run (fresh .tcp [42] true)
      [.constructed, .start false, .release, .terminate, .read, .timer, .destructed] =
        .ok (c, out) ∧ terminations out = 1) ∧
    ∃ c out, (machine (fun _ => "") 0).run (fresh .websocket [42] true)
      [.constructed, .hangup, .start false] = .ok (c, out) ∧ c.reading = .lost := by
  constructor
  · have hrun : (machine (fun _ => "") 0).run (fresh .tcp [42] true)
        [.constructed, .start false, .release, .terminate, .read, .timer, .destructed] =
        .ok (⟨.tcp, [42], .destroyed, false, .none, .none, false, [], [], .fresh⟩,
          [.terminated]) := by rfl
    exact ⟨_, _, hrun, (client_lifetime hrun).1⟩
  · have hrun : (machine (fun _ => "") 0).run (fresh .websocket [42] true)
        [.constructed, .hangup, .start false] =
        .ok (⟨.websocket, [42], .started, false, .waiting, .lost, true, [], [], .fresh⟩, []) := by
      rfl
    refine ⟨_, _, hrun, (client_lifetime hrun).2.2.2.mpr ⟨rfl, [.constructed, .hangup], [], rfl,
      ⟨.websocket, [42], .created, false, .none, .none, true, [], [], .fresh⟩, [], ?_, rfl⟩⟩
    rfl

/-- A step of a handler that something has been waiting for, or of the timer. -/
def Event.internal : Event → Bool
  | .expire | .timer | .read | .run _ => true
  | _ => false

/-- A packet is announced. -/
def Event.announces : Event → Bool
  | .packet _ => true
  | _ => false

/-- The socket has been closed, or the read has ended. -/
def Ending (c : Client) : Prop :=
  c.isOpen = false ∨ c.reading = .none ∨ c.reading = .completed true

/-- A bound on the number of handlers that can still run. -/
def rank (c : Client) : ℕ :=
  c.posted.length +
  (match c.timer with
    | .none => 0
    | .waiting => 2
    | .expired => 1
    | .aborted => 1) +
  match c.reading with
    | .completed false => 2
    | .completed true => 1
    | _ => 0

/-- The client has been released. -/
def Let (c : Client) : Prop :=
  c.phase = .released ∨ c.phase = .destroying ∨ c.phase = .destroyed

/-- Once the client is ending, each of its handlers is one less that can run, and each packet that
is announced is one more. -/
theorem effect_rank (hc : c.Sound) (hending : c.Ending) (hlet : c.Let) {e : Event}
    (h : c.Effect e c' out) :
    c'.Ending ∧ c'.Let ∧
      (if e.internal then 1 else 0) + c'.rank ≤ c.rank + if e.announces then 1 else 0 := by
  have hpending : c.reading ≠ .pending := by
    rcases hending with hclosed | hnone | hended
    · exact hc.closed hclosed
    · simp [hnone]
    · simp [hended]
  have hclose : ∀ d : Client, d.reading ≠ .pending → d.close.rank = d.rank := by
    intro d hd
    simp [rank, close, hd]
  cases h with
  | constructed hphase => simp [Let, hphase] at hlet
  | starts hphase => simp [Let, hphase] at hlet
  | throws hphase => simp [Let, hphase] at hlet
  | released hphase => rcases hphase with hphase | hphase <;> simp [Let, hphase] at hlet
  | packet p hphase =>
    refine ⟨hending, hlet, ?_⟩
    simp only [rank, Event.internal, Event.announces, List.length_append, List.length_singleton,
      Bool.false_eq_true, if_true, if_false]
    omega
  | runs i hi strand out hout =>
    refine ⟨hending, hlet, ?_⟩
    simp only [rank, Event.internal, Event.announces, List.length_eraseIdx_of_lt hi,
      Bool.false_eq_true, if_true, if_false]
    omega
  | expires htimer =>
    refine ⟨hending, hlet, ?_⟩
    simp only [rank, Event.internal, Event.announces, htimer, Bool.false_eq_true, if_true,
      if_false]
    omega
  | expired htimer =>
    refine ⟨.inl rfl, hlet, ?_⟩
    rw [hclose { c with timer := .none } hpending]
    simp only [rank, Event.internal, Event.announces, htimer, Bool.false_eq_true, if_true,
      if_false]
    omega
  | aborted htimer =>
    refine ⟨hending, hlet, ?_⟩
    simp only [rank, Event.internal, Event.announces, htimer, Bool.false_eq_true, if_true,
      if_false]
    omega
  | completes error hreading hprotocol => exact absurd hreading hpending
  | reads hreading =>
    have hclosed : c.isOpen = false := by
      rcases hending with hclosed | hnone | hended
      · exact hclosed
      · simp [hreading] at hnone
      · simp [hreading] at hended
    refine ⟨.inl hclosed, hlet, ?_⟩
    cases hprotocol : c.protocol <;>
      simp [rank, startRead, hclosed, hprotocol, hreading, Event.internal, Event.announces] <;>
      omega
  | ends hreading =>
    refine ⟨.inr (.inl rfl), hlet, ?_⟩
    cases htimer : c.timer <;>
      simp [rank, cancel, htimer, hreading, Event.internal, Event.announces] <;> omega
  | hangs hprotocol =>
    refine ⟨.inl rfl, hlet, ?_⟩
    simp [hclose c hpending, Event.internal]
  | terminates =>
    refine ⟨.inl rfl, hlet, ?_⟩
    rw [hclose (cancel { c with termination := false }) hpending]
    cases htimer : c.timer <;> simp [rank, cancel, htimer, Event.internal, Event.announces]
  | ignores => exact ⟨hending, hlet, by simp [Event.internal]⟩
  | destructed hphase =>
    refine ⟨hending, .inr (.inr rfl), ?_⟩
    simp [rank, Event.internal]
  | serves e hother strand connection out hout =>
    refine ⟨hending, hlet, ?_⟩
    rcases hother with rfl | ⟨error, n, rfl⟩ <;> simp [rank, Event.internal]

theorem step_rank (hc : c.Sound) (hending : c.Ending) (hlet : c.Let) {e : Event}
    (hstep : c.step toISOString port e = .ok (c', out)) :
    c'.Ending ∧ c'.Let ∧
      (if e.internal then 1 else 0) + c'.rank ≤ c.rank + if e.announces then 1 else 0 := by
  obtain ⟨d, hfire, rfl⟩ := step_ok_iff.mp hstep
  obtain ⟨hending', hlet', hrank⟩ := effect_rank hc hending hlet (fire_effect hfire)
  rcases d.settle_cases with h | ⟨-, h⟩
  · rw [h]
    exact ⟨hending', hlet', hrank⟩
  · rw [h]
    exact ⟨hending', .inr (.inl rfl), hrank⟩

/-- What holds a client that is ending can run, unless it is a read that was lost. -/
theorem Sound.not_stuck (hc : c.Sound) (hending : c.Ending) (hheld : c.Held)
    (hlost : c.reading ≠ .lost) :
    ∃ e : Event, e.internal = true ∧ ∃ r, c.step toISOString port e = .ok r := by
  have hfires : ∀ e : Event, ∀ r, c.fire toISOString port e = some r →
      ∃ r, c.step toISOString port e = .ok r := by
    intro e r hfire
    exact ⟨_, step_ok_iff.mpr ⟨r.1, hfire, rfl⟩⟩
  rcases hheld with htimer | hreading | hposted
  · cases htimer' : c.timer with
    | none => exact absurd htimer' htimer
    | waiting => exact ⟨.expire, rfl, hfires _ _ (by simp only [fire, htimer', if_true]; rfl)⟩
    | expired => exact ⟨.timer, rfl, hfires _ _ (by simp only [fire, htimer']; rfl)⟩
    | aborted => exact ⟨.timer, rfl, hfires _ _ (by simp only [fire, htimer']; rfl)⟩
  · cases hreading' : c.reading with
    | none => exact absurd hreading' hreading
    | pending =>
      rcases hending with hclosed | hnone | hended
      · exact absurd hreading' (hc.closed hclosed)
      · exact absurd hnone hreading
      · simp [hreading'] at hended
    | completed error =>
      cases error with
      | true => exact ⟨.read, rfl, hfires _ _ (by simp only [fire, hreading']; rfl)⟩
      | false => exact ⟨.read, rfl, hfires _ _ (by simp only [fire, hreading']; rfl)⟩
    | lost => exact absurd hreading' hlost
  · obtain ⟨p, rest, hp⟩ := List.exists_cons_of_ne_nil hposted
    refine ⟨.run 0, rfl, ?_⟩
    by_cases hpasses : passes c.filter p.data = true
    · exact hfires _ _ (by simp only [fire, hp, List.getElem?_cons_zero, hpasses, if_true]; rfl)
    · exact hfires _ _ (by simp only [fire, hp, List.getElem?_cons_zero, hpasses]; rfl)

/-- A client whose socket has been closed, by its timer, by its server or by its peer, or whose
read has failed, goes away by itself: whatever happens in whatever order, no more of its handlers
run than `rank` and the packets that are still announced, and as long as it is not destroyed one of
them can. The exception is a read that was lost. -/
theorem ending_client_goes
    (hrun : (machine toISOString port).run (fresh protocol filter termination) events =
      .ok (c, out))
    (hphase : c.phase = .released) (hending : c.Ending) (hlost : c.reading ≠ .lost)
    {later : List Event} {d : Client} {more : List Output}
    (hlater : (machine toISOString port).run c later = .ok (d, more)) :
    later.countP Event.internal + d.rank ≤ c.rank + later.countP Event.announces ∧
    (d.phase = .destroying ∨ d.phase = .destroyed ∨ d.phase = .released ∧
      ∃ e : Event, e.internal = true ∧ ∃ r, d.step toISOString port e = .ok r) := by
  obtain ⟨hsound, hheld, -⟩ := run_sound hrun
  have h := (machine toISOString port).run_invariant
    (fun is _ d => d.Sound ∧ (d.phase = .released → d.Held) ∧ d.Let ∧ d.Ending ∧
      d.reading ≠ .lost ∧
      is.countP Event.internal + d.rank ≤ c.rank + is.countP Event.announces)
    (by
      rintro is out d e d' o ⟨hd, -, hlet, hending, hlost, hrank⟩ hstep
      obtain ⟨hending', hlet', hrank'⟩ := step_rank hd hending hlet hstep
      obtain ⟨hd', hheld'⟩ := step_sound hd hstep
      refine ⟨hd', hheld', hlet', hending', ?_, ?_⟩
      · obtain ⟨u, hfire, rfl⟩ := step_ok_iff.mp hstep
        have hsettle : u.settle.reading = u.reading := by
          rcases u.settle_cases with h | ⟨-, h⟩ <;> simp [h]
        rw [hsettle]
        intro hnow
        have heffect := fire_effect hfire
        rcases (effect_lost hd heffect).2.mp hnow with hearlier | ⟨rfl, -⟩
        · exact hlost hearlier
        · cases heffect with
          | starts hphase => simp [Let, hphase] at hlet
          | serves e hother strand connection out hout =>
            rcases hother with h | ⟨error, n, h⟩ <;> cases h
      · simp only [List.countP_append, List.countP_singleton]
        omega)
    (s := c) ⟨hsound, hheld, .inl hphase, hending, hlost, by simp⟩ hlater
  obtain ⟨hd, hheld', hlet', hending', hlost', hrank⟩ := h
  refine ⟨hrank, ?_⟩
  rcases hlet' with hphase' | hphase' | hphase'
  · exact .inr (.inr ⟨hphase', hd.not_stuck hending' (hheld' hphase') hlost'⟩)
  · exact .inl hphase'
  · exact .inr (.inl hphase')

/-- A client whose timer has expired, while the sniffer announces three packets. -/
theorem ending_client_goes_expired :
    ∃ c out, (machine (fun _ => "") 0).run (fresh .tcp [42] true)
        [.constructed, .start false, .release, .expire, .timer] = .ok (c, out) ∧
      ∀ later : List Event, later.countP Event.announces = 3 → ∀ d more,
        (machine (fun _ => "") 0).run c later = .ok (d, more) →
        later.countP Event.internal ≤ 4 := by
  have hrun : (machine (fun _ => "") 0).run (fresh .tcp [42] true)
      [.constructed, .start false, .release, .expire, .timer] =
      .ok (⟨.tcp, [42], .released, false, .none, .completed true, true, [], [], .fresh⟩, []) := by
    rfl
  refine ⟨_, _, hrun, ?_⟩
  intro later hannounced d more hlater
  have hgoes := ending_client_goes hrun rfl (.inl rfl) (by simp) hlater
  have hrank : rank ⟨.tcp, [42], .released, false, .none, .completed true, true, [], [], .fresh⟩ =
      1 := by rfl
  omega

end Lifetime
end Client
end NetComponents.Livecapture
