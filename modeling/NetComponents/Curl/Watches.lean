import NetComponents.Curl.Service

/-!
# Watches are neither lost nor doubled

The mask of a socket says for which directions libcurl waits. A direction that is
in the mask without an outstanding watch would never be looked at again, and one
with two watches runs the handler twice. The first part shows that nothing is
lost; the second one says when a watch is doubled, in terms of what libcurl asks for and of the
completions.
-/

namespace NetComponents.Curl

open Library

theorem Mask.has_or_zero (mask : Mask) (d : Direction) : mask.Has d ∨ mask &&& d.poll = 0 := by
  obtain ⟨i, hi⟩ : ∃ i, d.poll = BitVec.twoPow 32 i := by
    cases d with
    | read => exact ⟨0, by decide⟩
    | write => exact ⟨1, by decide⟩
  rw [Mask.Has, hi, BitVec.and_twoPow]
  split_ifs
  · exact .inl rfl
  · exact .inr rfl

theorem Direction.poll_ne_zero (d : Direction) : d.poll ≠ 0 := by
  cases d <;> decide

theorem Mask.not_has_zero (d : Direction) : ¬(0 : Mask).Has d := by
  cases d <;> decide

theorem Mask.diff_poll_self (mask : Mask) (d : Direction) :
    mask &&& ~~~d.select &&& d.poll = 0 := by
  have hbits : ~~~d.select &&& d.poll = 0 := by cases d <;> decide
  rw [BitVec.and_assoc, hbits]
  exact BitVec.and_zero

theorem Mask.diff_poll_ne (mask : Mask) {d e : Direction} (h : e ≠ d) :
    mask &&& ~~~d.select &&& e.poll = mask &&& e.poll := by
  have hbits : ~~~d.select &&& e.poll = e.poll := by
    revert h
    cases d <;> cases e <;> decide
  rw [BitVec.and_assoc, hbits]

theorem armed_iff {what prev : Mask} {d : Direction} :
    Armed what prev d ↔ what.Has d ∧ ¬prev.Has d := by
  constructor
  · rintro ⟨hwhat, hzero⟩
    refine ⟨hwhat, ?_⟩
    intro hhas
    exact d.poll_ne_zero (hhas.symm.trans hzero)
  · rintro ⟨hwhat, hhas⟩
    exact ⟨hwhat, (prev.has_or_zero d).resolve_left hhas⟩

/-- After an update every direction asked for has a watch: it got one now, or the
previous mask had it. -/
theorem Socket.watched_update (sock : Socket) {what prev : Mask} {d : Direction}
    (hprev : prev.Has d → 0 < sock.watches d) (hwhat : what.Has d) :
    0 < (sock.update what prev).watches d := by
  rw [Socket.watches_update]
  rcases prev.has_or_zero d with hhas | hzero
  · have hpos := hprev hhas
    omega
  · rw [if_pos ⟨hwhat, hzero⟩]
    omega

namespace Service

section LostWakeUp

/-- The running handler belongs to a watch of this direction: the watch is used up, and the
handler will arm another one. -/
def Handling (sv : Service) (s : Handle) (d : Direction) : Prop :=
  ∃ r, sv.running = some r ∧ r.sock = s ∧ r.direction = d

/-- Each direction that libcurl asks for is watched, but for the one being handled. -/
structure Watched (sv : Service) : Prop where
  watch : ∀ s d, (sv.sockets s).registered = true → (sv.sockets s).mask.Has d →
    0 < (sv.sockets s).watches d ∨ sv.Handling s d
  noError : ∀ r, sv.running = some r → r.error = false

/-- The service is changed at one socket only, on which the watches stay complete. -/
theorem Watched.modify {sv : Service} (h : sv.Watched) {s : Handle} {f : Socket → Socket}
    (hf : ∀ d, (f (sv.sockets s)).registered = true → (f (sv.sockets s)).mask.Has d →
      0 < (f (sv.sockets s)).watches d ∨ sv.Handling s d) : (sv.modify s f).Watched := by
  constructor
  · intro s' d hreg hhas
    by_cases hs : s' = s
    · subst hs
      rw [sockets_modify_self] at hreg hhas ⊢
      exact hf d hreg hhas
    · rw [sockets_modify_ne _ hs] at hreg hhas ⊢
      exact h.watch s' d hreg hhas
  · exact h.noError

theorem Watched.update {sv : Service} (h : sv.Watched) {s : Handle} {what prev : Mask}
    (hprev : ∀ d, what.Has d → prev.Has d → 0 < (sv.sockets s).watches d ∨ sv.Handling s d) :
    (sv.update s what prev).Watched := by
  apply h.modify
  intro d _ hhas
  rw [Socket.mask_update] at hhas
  by_cases hd : sv.Handling s d
  · exact .inr hd
  · left
    apply Socket.watched_update _ _ hhas
    intro hp
    exact (hprev d hhas hp).resolve_right hd

theorem Watched.add {sv : Service} (h : sv.Watched) (s : Handle) (what : Mask) :
    (sv.add s what).Watched := by
  unfold Service.add
  split_ifs
  · have hassigned : (sv.modify s fun sock => { sock with assigned := true }).Watched :=
      h.modify fun d hreg hhas => h.watch s d hreg hhas
    apply hassigned.update
    intro d _ hzero
    exact absurd hzero (Mask.not_has_zero d)
  · exact h

theorem Watched.action {sv : Service} (h : sv.Watched) (s : Handle) (what : Mask)
    (socketp : Bool) : (sv.action s what socketp).Watched := by
  unfold Service.action
  split_ifs with _ _ hreg _ hremove
  · exact h.add s what
  · apply h.update
    intro d _ hhas
    exact h.watch s d hreg hhas
  · exact h
  · apply h.modify
    intro d _ hzero
    exact absurd hzero (Mask.not_has_zero d)
  · exact h
  · exact h

/-- The end of a handler arms the direction that it handled, if libcurl still asks for it. -/
theorem Watched.continueMonitoring {sv : Service} (h : sv.Watched) {r : Running}
    (hr : sv.running = some r) {s : Handle} {d : Direction}
    (hreg : ((sv.continueMonitoring r).sockets s).registered = true)
    (hhas : ((sv.continueMonitoring r).sockets s).mask.Has d) :
    0 < ((sv.continueMonitoring r).sockets s).watches d := by
  have hmask : r.mask = r.direction.select := by simp [Running.mask, h.noError r hr]
  have hother : ¬(s = r.sock ∧ d = r.direction) → ¬sv.Handling s d := by
    rintro hne ⟨r', hr', rfl, rfl⟩
    cases hr.symm.trans hr'
    exact hne ⟨rfl, rfl⟩
  by_cases hs : s = r.sock
  · subst hs
    unfold Service.continueMonitoring at hreg hhas ⊢
    split_ifs at hreg hhas ⊢ with hgoes
    · simp only [Service.update, sockets_modify_self, Socket.mask_update] at hhas ⊢
      apply Socket.watched_update _ _ hhas
      intro hprev
      by_cases hd : d = r.direction
      · rw [hmask, hd, Mask.Has, Mask.diff_poll_self] at hprev
        exact absurd hprev.symm (Direction.poll_ne_zero _)
      · have hwatch := h.watch r.sock d hgoes.2.1 hhas
        exact hwatch.resolve_right (hother fun hboth => hd hboth.2)
    · have hzero : (sv.sockets r.sock).mask = 0 := by
        by_contra hne
        exact hgoes ⟨h.noError r hr, hreg, hne⟩
      rw [hzero] at hhas
      exact absurd hhas (Mask.not_has_zero d)
  · rw [sockets_continueMonitoring_ne _ hs] at hreg hhas ⊢
    exact (h.watch s d hreg hhas).resolve_right (hother fun hboth => hs hboth.1)

/-- A handler may start only while none is running, so all directions are watched then; one
watch of the direction it will handle is used up. -/
theorem Watched.completed {sv : Service} (h : sv.Watched) (hidle : sv.running = none)
    (s : Handle) (d : Direction) (prev : Mask) :
    Watched { sv.modify s (fun sock => sock.complete d) with
      running := some ⟨s, d, false, prev⟩ } := by
  have hall : ∀ s' d', (sv.sockets s').registered = true → (sv.sockets s').mask.Has d' →
      0 < (sv.sockets s').watches d' := by
    intro s' d' hreg hhas
    apply (h.watch s' d' hreg hhas).resolve_right
    rintro ⟨r, hr, -⟩
    cases hidle.symm.trans hr
  constructor
  · intro s' d' hreg hhas
    by_cases hs : s' = s
    · subst hs
      by_cases hd : d' = d
      · exact .inr ⟨_, rfl, rfl, hd.symm⟩
      · left
        simp only [sockets_modify_self, Socket.registered_complete, Socket.mask_complete]
          at hreg hhas ⊢
        rw [Socket.watches_complete_ne _ hd]
        exact hall s' d' hreg hhas
    · left
      simp only [sockets_modify_ne _ hs] at hreg hhas ⊢
      exact hall s' d' hreg hhas
  · rintro r ⟨rfl⟩
    rfl

theorem Watched.step {sv sv' : Service} {e : Event} (h : sv.Watched) (he : e.NoError)
    (heffect : sv.Effect e sv') : sv'.Watched := by
  cases heffect with
  | socket s =>
    apply h.modify
    intro d _ hzero
    exact absurd hzero (Mask.not_has_zero d)
  | close s =>
    apply h.modify
    intro d hreg
    cases hreg
  | action s what socketp => exact h.action s what socketp
  | ready s d hwatch =>
    apply h.modify
    intro e hreg hhas
    rw [Socket.registered_ready] at hreg
    rw [Socket.mask_ready] at hhas
    rw [Socket.watches_ready _ hwatch]
    exact h.watch s e hreg hhas
  | completed s d error hidle =>
    obtain rfl : error = false := he
    exact h.completed hidle s d _
  | processed r hr =>
    constructor
    · intro s d hreg hhas
      exact .inl (h.continueMonitoring hr hreg hhas)
    · rintro r' ⟨⟩

theorem watched_fresh : fresh.Watched := by
  constructor
  · rintro s d ⟨⟩
  · rintro r ⟨⟩

/-- In every run whose watches complete without error: when no handler is running, each
direction in the mask of a registered socket is watched. -/
theorem no_lost_wakeup {events : List Event} (hevents : ∀ e ∈ events, e.NoError)
    {sv : Service} {out : List Process} (hrun : machine.run fresh events = .ok (sv, out))
    (hidle : sv.running = none) (s : Handle) (hreg : (sv.sockets s).registered = true)
    (d : Direction) (hd : (sv.sockets s).mask.Has d) : 0 < (sv.sockets s).watches d := by
  have hwatched : (∀ e ∈ events, e.NoError) → sv.Watched :=
    machine.run_invariant (fun events _ sv => (∀ e ∈ events, e.NoError) → sv.Watched)
      (by
        intro is out s i s' o hs hstep his
        have hi := his i (by simp)
        exact (hs fun e he => his e (by simp [he])).step hi (step_effect hstep))
      (fun _ => watched_fresh) hrun
  apply ((hwatched hevents).watch s d hreg hd).resolve_right
  rintro ⟨r, hr, -⟩
  cases hidle.symm.trans hr

/-- The mask changes while the handler of a read watch runs. -/
theorem no_lost_wakeup_handler :
    ∃ sv out, machine.run fresh [.socket 5, .action 5 CURL_POLL_IN false, .ready 5 .read,
      .completed 5 .read false, .action 5 CURL_POLL_OUT true, .processed] = .ok (sv, out) ∧
      0 < (sv.sockets 5).watches .write := by
  have hevents : ∀ e ∈ [Event.socket 5, .action 5 CURL_POLL_IN false, .ready 5 .read,
      .completed 5 .read false, .action 5 CURL_POLL_OUT true, .processed], e.NoError := by
    simp [Event.NoError]
  exact ⟨_, _, rfl, no_lost_wakeup hevents rfl rfl 5 rfl .write rfl⟩

end LostWakeUp

section Doubled

/-- What is remembered of a direction of a socket: libcurl has stopped asking for it and its watch
is left behind; its watch has failed since libcurl asked for it; a completion is queued; libcurl
has begun to ask for it since the running handler was called. -/
structure Note where
  left : Bool := false
  failed : Bool := false
  queued : Bool := false
  again : Bool := false
  deriving DecidableEq, Repr

/-- What is remembered of the callbacks and the completions. -/
abbrev Notes := Handle → Direction → Note

/-- The running handler is the one of a watch for this direction. -/
def handles (sv : Service) (s : Handle) (d : Direction) : Bool :=
  sv.running.any fun r => r.sock = s ∧ r.direction = d

/-- libcurl begins to ask for a direction. -/
abbrev Starts (sock : Socket) (what : Mask) (socketp : Bool) (d : Direction) : Prop :=
  what.Has d ∧ (socketp = false ∨ ¬sock.mask.Has d)

namespace Note

/-- The handler is running, and libcurl has not begun to ask for its direction meanwhile. -/
def handled (n : Note) (handles : Bool) : Bool := handles && !n.again

/-- `action`, with a mask or to remove. -/
def asked (n : Note) (sock : Socket) (handles : Bool) (d : Direction) (what : Mask)
    (socketp : Bool) : Note :=
  if what = CURL_POLL_IN ∨ what = CURL_POLL_OUT ∨ what = CURL_POLL_INOUT then
    if Starts sock what socketp d then { n with left := false, failed := false, again := true }
    else if sock.mask.Has d ∧ ¬what.Has d then
      { n with left := !(n.failed || n.handled handles), failed := false }
    else n
  else if what = CURL_POLL_REMOVE ∧ socketp ∧ sock.mask ≠ 0 then
    -- the watch is cancelled unless its handler is queued
    { n with left := n.queued, failed := false }
  else n

/-- A handler is called: the one of this direction, or another one. -/
def called (n : Note) (mine error : Bool) : Note :=
  if mine then { left := false, failed := error, queued := false, again := false }
  else { n with again := false }

end Note

def Notes.after (n : Notes) (sv : Service) : Event → Notes
  | .socket s => fun s' d => if s' = s then {} else n s' d
  | .close _ => n
  | .action s what socketp => fun s' d =>
    if s' = s ∧ (sv.sockets s).registered then
      (n s' d).asked (sv.sockets s) (sv.handles s d) d what socketp
    else n s' d
  | .ready s d => fun s' d' =>
    if s' = s ∧ d' = d then { n s' d' with queued := true } else n s' d'
  | .completed s d error => fun s' d' => (n s' d').called (s' = s ∧ d' = d) error
  | .processed => n

/-- libcurl begins to ask for a direction only if no watch of it is left behind. While a handler
without error runs, it does not begin to ask for the direction that is handled, nor for one that it
had not asked for before, unless it stops again until the handler ends. -/
def Notes.Allows (n : Notes) (sv : Service) : Event → Prop
  | .action s what socketp =>
    what = CURL_POLL_IN ∨ what = CURL_POLL_OUT ∨ what = CURL_POLL_INOUT →
      (sv.sockets s).registered = true → ∀ d, Starts (sv.sockets s) what socketp d →
        (n s d).left = false ∧
          ((sv.sockets s).mask.Has d →
            (n s d).failed = true ∨ (n s d).handled (sv.handles s d) = true)
  | .processed =>
    ∀ r, sv.running = some r → r.error = false → (sv.sockets r.sock).registered = true →
      ∀ d, (sv.sockets r.sock).mask.Has d →
        r.prev.Has d ∧ (d = r.direction → (n r.sock d).again = false)
  | _ => True

/-- The state and the notes behind a list of events. -/
def observe : Service × Notes → List Event → Service × Notes
  | x, [] => x
  | x, e :: events =>
    match x.1.step e with
    | .ok (sv, _) => observe (sv, x.2.after x.1 e) events
    | .error _ => x

/-- What is remembered of a list of events. -/
def notes (events : List Event) : Notes := (observe (fresh, fun _ _ => {}) events).2

theorem observe_append {sv sv' : Service} {n : Notes} {events more : List Event}
    {out : List Process} (h : machine.run sv events = .ok (sv', out)) :
    observe (sv, n) (events ++ more) = observe (sv', (observe (sv, n) events).2) more := by
  induction events generalizing sv n out with
  | nil =>
    cases h
    rfl
  | cons e events ih =>
    obtain ⟨sv₁, o, o', hstep, hrun, rfl⟩ := machine.run_cons_ok_iff.mp h
    have hstep' : sv.step e = .ok (sv₁, o) := hstep
    simp only [List.cons_append, observe, hstep']
    exact ih hrun

theorem notes_snoc {sv sv' : Service} {events : List Event} {e : Event} {out o : List Process}
    (h : machine.run fresh events = .ok (sv, out)) (hstep : sv.step e = .ok (sv', o)) :
    notes (events ++ [e]) = (notes events).after sv e := by
  unfold notes
  rw [observe_append h]
  simp only [observe, hstep]

/-- The notes of a direction tell whether it has a watch. -/
structure Note.Fits (n : Note) (sock : Socket) (handles : Bool) (d : Direction) : Prop where
  watches : sock.watches d =
    if n.left = true ∨ (sock.mask.Has d ∧ n.failed = false ∧ n.handled handles = false) then 1
    else 0
  queued : sock.queued d = if n.queued = true then 1 else 0
  left : n.left = true → ¬sock.mask.Has d
  again : n.again = true → n.failed = false

namespace Note.Fits

variable {n : Note} {sock : Socket} {handles : Bool} {d : Direction}

theorem le_one (h : n.Fits sock handles d) : sock.watches d ≤ 1 := by
  rw [h.watches]
  split_ifs <;> omega

theorem created (handles : Bool) (d : Direction) : ({} : Note).Fits .created handles d where
  watches := by
    have hmask : ¬Socket.created.mask.Has d := Mask.not_has_zero d
    simp only [hmask]
    cases d <;> rfl
  queued := by cases d <;> rfl
  left := by simp
  again := by simp

/-- A direction that libcurl does not begin to ask for keeps its watch. -/
theorem asked_kept (h : n.Fits sock handles d) {what : Mask} {socketp : Bool}
    (hpoll : what = CURL_POLL_IN ∨ what = CURL_POLL_OUT ∨ what = CURL_POLL_INOUT)
    (hstart : ¬Starts sock what socketp d) {sock' : Socket} (hmask : sock'.mask = what)
    (hwatches : sock'.watches d = sock.watches d) (hqueued : sock'.queued d = sock.queued d) :
    (n.asked sock handles d what socketp).Fits sock' handles d := by
  unfold Note.asked
  rw [if_pos hpoll, if_neg hstart]
  split_ifs with hstop
  · have hleft : ¬n.left = true := fun hleft => h.left hleft hstop.1
    constructor
    · rw [hwatches, h.watches, hmask]
      cases hf : n.failed <;> cases hh : n.handled handles <;> simp [hleft, hstop]
    · rw [hqueued, h.queued]
    · rw [hmask]
      exact fun _ => hstop.2
    · exact fun _ => rfl
  · have hsame : what.Has d ↔ sock.mask.Has d := by
      by_cases hw : what.Has d <;> by_cases hm : sock.mask.Has d
      · exact iff_of_true hw hm
      · exact absurd ⟨hw, Or.inr hm⟩ hstart
      · exact absurd ⟨hm, hw⟩ hstop
      · exact iff_of_false hw hm
    constructor
    · rw [hwatches, h.watches, hmask]
      simp only [hsame]
    · rw [hqueued, h.queued]
    · rw [hmask, hsame]
      exact h.left
    · exact h.again

/-- There is no watch for a direction exactly if libcurl may begin to ask for it. -/
theorem free_iff (h : n.Fits sock handles d) :
    sock.watches d = 0 ↔
      n.left = false ∧ (sock.mask.Has d → n.failed = true ∨ n.handled handles = true) := by
  rw [h.watches]
  by_cases hm : sock.mask.Has d <;> cases n.left <;> cases n.failed <;>
    cases n.handled handles <;> simp [hm]

/-- A direction that libcurl begins to ask for gets a watch. -/
theorem asked_start (h : n.Fits sock handles d) {what : Mask} {socketp : Bool}
    (hpoll : what = CURL_POLL_IN ∨ what = CURL_POLL_OUT ∨ what = CURL_POLL_INOUT)
    (hstart : Starts sock what socketp d) (hfree : sock.watches d = 0) {sock' : Socket}
    (hmask : sock'.mask = what) (hwatches : sock'.watches d = sock.watches d + 1)
    (hqueued : sock'.queued d = sock.queued d) :
    (n.asked sock handles d what socketp).Fits sock' handles d := by
  unfold Note.asked
  rw [if_pos hpoll, if_pos hstart]
  constructor
  · rw [hwatches, hfree, hmask]
    simp [hstart.1, Note.handled]
  · rw [hqueued, h.queued]
  · rintro ⟨⟩
  · exact fun _ => rfl

/-- `CURL_POLL_REMOVE` leaves a watch whose handler is queued. -/
theorem removed (h : n.Fits sock handles d) {sock' : Socket} (hmask : sock'.mask = 0)
    (hwatches : sock'.watches d = sock.queued d) (hqueued : sock'.queued d = sock.queued d) :
    Note.Fits { n with left := n.queued, failed := false } sock' handles d := by
  have hnot : ¬sock'.mask.Has d := by
    rw [hmask]
    exact Mask.not_has_zero d
  constructor
  · rw [hwatches, h.queued]
    simp only [hnot]
    cases n.queued <;> rfl
  · rw [hqueued, h.queued]
  · exact fun _ => hnot
  · exact fun _ => rfl

/-- A watch that completes has waited, and its handler is the only one that is queued. -/
theorem readied (h : n.Fits sock handles d) (hwait : sock.waiting d ≠ 0) :
    Note.Fits { n with queued := true } (sock.ready d) handles d := by
  have hle := h.le_one
  have hnone : sock.queued d = 0 := by
    rw [Socket.watches] at hle
    omega
  constructor
  · rw [Socket.watches_ready _ hwait, Socket.mask_ready]
    exact h.watches
  · rw [Socket.queued_ready_self, hnone]
    rfl
  · rw [Socket.mask_ready]
    exact h.left
  · exact h.again

/-- Nothing happens to the direction. -/
theorem congr (h : n.Fits sock handles d) {sock' : Socket} (hmask : sock'.mask = sock.mask)
    (hwatches : sock'.watches d = sock.watches d) (hqueued : sock'.queued d = sock.queued d) :
    n.Fits sock' handles d := by
  constructor
  · rw [hwatches, hmask]
    exact h.watches
  · rw [hqueued]
    exact h.queued
  · rw [hmask]
    exact h.left
  · exact h.again

/-- The handler of another watch is called, while none has been running. -/
theorem called_other (h : n.Fits sock false d) (error : Bool) :
    (n.called false error).Fits sock false d where
  watches := h.watches
  queued := h.queued
  left := h.left
  again := by simp [Note.called]

/-- The handler of the watch is called. -/
theorem called_self (h : n.Fits sock handles d) (hqueued : sock.queued d ≠ 0) (error : Bool) :
    (n.called true error).Fits (sock.complete d) true d := by
  have hle := h.le_one
  rw [Socket.watches] at hle
  constructor
  · have hnone : (sock.complete d).watches d = 0 := by
      rw [Socket.watches, Socket.waiting_complete, Socket.queued_complete_self]
      omega
    rw [hnone]
    simp [Note.called, Note.handled]
  · rw [Socket.queued_complete_self]
    have hone : sock.queued d - 1 = 0 := by omega
    simp [Note.called, hone]
  · simp [Note.called]
  · simp [Note.called]

/-- The handler ends without another watch. -/
theorem idle (h : n.Fits sock handles d)
    (hends : sock.mask.Has d → n.failed = false → n.handled handles = false) :
    n.Fits sock false d where
  watches := by
    have hcond : (sock.mask.Has d ∧ n.failed = false ∧ n.handled handles = false) ↔
        (sock.mask.Has d ∧ n.failed = false ∧ n.handled false = false) :=
      and_congr_right fun hhas => and_congr_right fun hfailed =>
        iff_of_true (hends hhas hfailed) rfl
    rw [h.watches]
    exact if_congr (or_congr_right hcond) rfl rfl
  queued := h.queued
  left := h.left
  again := h.again

/-- The handler arms its direction again. -/
theorem armed (h : n.Fits sock true d) (hagain : n.again = false) (hfailed : n.failed = false)
    (hhas : sock.mask.Has d) {sock' : Socket} (hmask : sock'.mask = sock.mask)
    (hwatches : sock'.watches d = sock.watches d + 1)
    (hqueued : sock'.queued d = sock.queued d) : n.Fits sock' false d := by
  have hleft : ¬n.left = true := fun hleft => h.left hleft hhas
  constructor
  · rw [hwatches, h.watches, hmask]
    simp [hleft, hhas, hfailed, hagain, Note.handled]
  · rw [hqueued, h.queued]
  · rw [hmask]
    exact h.left
  · exact h.again

end Note.Fits

/-- A direction that libcurl asks for, and has not begun to ask for, is noted as before. -/
theorem Note.asked_eq {n : Note} {sock : Socket} {handles : Bool} {d : Direction} {what : Mask}
    {socketp : Bool}
    (hpoll : what = CURL_POLL_IN ∨ what = CURL_POLL_OUT ∨ what = CURL_POLL_INOUT)
    (hagain : (n.asked sock handles d what socketp).again = false) (hwhat : what.Has d) :
    n.asked sock handles d what socketp = n ∧ sock.mask.Has d := by
  by_cases hstart : Starts sock what socketp d
  · rw [Note.asked, if_pos hpoll, if_pos hstart] at hagain
    cases hagain
  · have hmask : sock.mask.Has d := by
      by_contra hmask
      exact hstart ⟨hwhat, Or.inr hmask⟩
    have hgoes : ¬(sock.mask.Has d ∧ ¬what.Has d) := fun hstop => hstop.2 hwhat
    rw [Note.asked, if_pos hpoll, if_neg hstart, if_neg hgoes]
    exact ⟨rfl, hmask⟩

theorem sockets_action_ne (sv : Service) {s s' : Handle} (h : s' ≠ s) (what : Mask)
    (socketp : Bool) : (sv.action s what socketp).sockets s' = sv.sockets s' := by
  unfold Service.action Service.add Service.update
  split_ifs <;> simp [sockets_modify_ne _ h]

theorem running_action (sv : Service) (s : Handle) (what : Mask) (socketp : Bool) :
    (sv.action s what socketp).running = sv.running := by
  unfold Service.action Service.add
  split_ifs <;> rfl

/-- What `action` does to a registered socket when libcurl asks for a mask. -/
theorem action_polls {sv : Service} {s : Handle} {what : Mask} (socketp : Bool)
    (hpoll : what = CURL_POLL_IN ∨ what = CURL_POLL_OUT ∨ what = CURL_POLL_INOUT)
    (hreg : (sv.sockets s).registered = true) :
    ((sv.action s what socketp).sockets s).registered = true ∧
      ((sv.action s what socketp).sockets s).mask = what ∧
      ∀ d, ((sv.action s what socketp).sockets s).queued d = (sv.sockets s).queued d ∧
        ((sv.action s what socketp).sockets s).watches d =
          (sv.sockets s).watches d + if Starts (sv.sockets s) what socketp d then 1 else 0 := by
  have hupdate : ∀ (sv' : Service) (prev : Mask), (sv'.sockets s).registered = true →
      (∀ d, (sv'.sockets s).queued d = (sv.sockets s).queued d) →
      (∀ d, (sv'.sockets s).watches d = (sv.sockets s).watches d) →
      (∀ d, Armed what prev d ↔ Starts (sv.sockets s) what socketp d) →
      ((sv'.update s what prev).sockets s).registered = true ∧
        ((sv'.update s what prev).sockets s).mask = what ∧
        ∀ d, ((sv'.update s what prev).sockets s).queued d = (sv.sockets s).queued d ∧
          ((sv'.update s what prev).sockets s).watches d =
            (sv.sockets s).watches d +
              if Starts (sv.sockets s) what socketp d then 1 else 0 := by
    intro sv' prev hreg' hqueued hwatches harmed
    unfold Service.update
    rw [sockets_modify_self, Socket.registered_update, Socket.mask_update]
    refine ⟨hreg', rfl, fun d => ?_⟩
    rw [Socket.queued_update, Socket.watches_update, hqueued, hwatches]
    exact ⟨rfl, congrArg _ (if_congr (harmed d) rfl rfl)⟩
  unfold Service.action
  rw [if_pos hpoll]
  cases socketp with
  | false =>
    rw [if_pos rfl, Service.add, if_pos hreg]
    apply hupdate
    · rwa [sockets_modify_self]
    · intro d
      rw [sockets_modify_self]
      cases d <;> rfl
    · intro d
      rw [sockets_modify_self]
      cases d <;> rfl
    · intro d
      simp
  | true =>
    rw [if_neg (by simp), if_pos hreg]
    apply hupdate _ _ hreg (fun _ => rfl) (fun _ => rfl)
    intro d
    simp [armed_iff]

/-- The notes are right about the registered sockets. -/
structure Linked (n : Notes) (sv : Service) : Prop where
  fits : ∀ s d, (sv.sockets s).registered = true →
    (n s d).Fits (sv.sockets s) (sv.handles s d) d
  failed : ∀ r, sv.running = some r → (sv.sockets r.sock).registered = true →
    (n r.sock r.direction).again = false → (sv.sockets r.sock).mask.Has r.direction →
      (n r.sock r.direction).failed = r.error
  prev : ∀ r, sv.running = some r → (sv.sockets r.sock).registered = true →
    ∀ d, (n r.sock d).again = false → (sv.sockets r.sock).mask.Has d → r.prev.Has d

theorem armed_diff {r : Running} (hr : r.error = false) {what : Mask} {d : Direction} :
    Armed what (r.prev &&& ~~~r.mask) d ↔ what.Has d ∧ (d = r.direction ∨ ¬r.prev.Has d) := by
  have hmask : r.mask = r.direction.select := by simp [Running.mask, hr]
  rw [hmask, armed_iff]
  apply and_congr_right
  intro _
  by_cases hd : d = r.direction
  · rw [hd, Mask.Has, Mask.diff_poll_self]
    exact iff_of_true r.direction.poll_ne_zero.symm (.inl rfl)
  · rw [Mask.Has, Mask.diff_poll_ne _ hd]
    simp [hd]

namespace Linked

variable {n : Notes} {sv : Service}

theorem of_ne (h : Linked n sv) {s : Handle} {n' : Notes} {sv' : Service}
    (hrunning : sv'.running = sv.running) (hsockets : ∀ s', s' ≠ s → sv'.sockets s' = sv.sockets s')
    (hnotes : ∀ s' d, s' ≠ s → n' s' d = n s' d)
    (hfits : ∀ d, (sv'.sockets s).registered = true →
      (n' s d).Fits (sv'.sockets s) (sv.handles s d) d)
    (hasked : ∀ d, (sv'.sockets s).registered = true → (n' s d).again = false →
      (sv'.sockets s).mask.Has d →
        (sv.sockets s).registered = true ∧ (sv.sockets s).mask.Has d ∧
          (n' s d).failed = (n s d).failed ∧ (n s d).again = false) : Linked n' sv' := by
  have hhandles : sv'.handles = sv.handles := by
    unfold Service.handles
    rw [hrunning]
  constructor
  · intro s' d hreg
    rw [hhandles]
    by_cases hs : s' = s
    · subst hs
      exact hfits d hreg
    · rw [hsockets s' hs] at hreg ⊢
      rw [hnotes s' d hs]
      exact h.fits s' d hreg
  · intro r hr hreg hagain hhas
    rw [hrunning] at hr
    by_cases hs : r.sock = s
    · rw [hs] at hreg hagain hhas ⊢
      obtain ⟨hreg', hhas', hfailed, hagain'⟩ := hasked _ hreg hagain hhas
      rw [hfailed]
      subst hs
      exact h.failed r hr hreg' hagain' hhas'
    · rw [hsockets _ hs] at hreg hhas
      rw [hnotes _ _ hs] at hagain ⊢
      exact h.failed r hr hreg hagain hhas
  · intro r hr hreg d hagain hhas
    rw [hrunning] at hr
    by_cases hs : r.sock = s
    · rw [hs] at hreg hagain hhas
      obtain ⟨hreg', hhas', -, hagain'⟩ := hasked _ hreg hagain hhas
      subst hs
      exact h.prev r hr hreg' d hagain' hhas'
    · rw [hsockets _ hs] at hreg hhas
      rw [hnotes _ _ hs] at hagain
      exact h.prev r hr hreg d hagain hhas

theorem socket (h : Linked n sv) {s : Handle} (hfree : ¬sv.InUse s) :
    Linked (n.after sv (.socket s)) (sv.modify s fun _ => .created) := by
  have hidle : ∀ d, sv.handles s d = false := by
    intro d
    rw [handles, Option.any_eq_false]
    rintro r hr
    have hne : r.sock ≠ s := by
      rintro rfl
      exact hfree (Or.inr (Or.inr (Or.inr (by rw [hr]; rfl))))
    simp [hne]
  apply h.of_ne (s := s) (sv.running_modify s _)
  · intro s' hs
    exact sv.sockets_modify_ne hs _
  · intro s' d hs
    exact if_neg hs
  · intro d _
    rw [sockets_modify_self]
    simpa [Notes.after] using Note.Fits.created (sv.handles s d) d
  · intro d _ _ hhas
    rw [sockets_modify_self] at hhas
    exact absurd hhas (Mask.not_has_zero d)

theorem close (h : Linked n sv) (s : Handle) :
    Linked (n.after sv (.close s))
      (sv.modify s fun sock => { sock with registered := false, assigned := false }) := by
  apply h.of_ne (s := s) (sv.running_modify s _)
  · intro s' hs
    exact sv.sockets_modify_ne hs _
  · intro s' d _
    rfl
  · intro d hreg
    rw [sockets_modify_self] at hreg
    cases hreg
  · intro d hreg
    rw [sockets_modify_self] at hreg
    cases hreg

/-- `action` on a registered socket, when libcurl asks for a mask. -/
theorem polls (h : Linked n sv) {s : Handle} {what : Mask} {socketp : Bool}
    (hpoll : what = CURL_POLL_IN ∨ what = CURL_POLL_OUT ∨ what = CURL_POLL_INOUT)
    (hreg : (sv.sockets s).registered = true)
    (hallow : n.Allows sv (.action s what socketp)) :
    Linked (n.after sv (.action s what socketp)) (sv.action s what socketp) := by
  obtain ⟨-, hmask, hrest⟩ := action_polls socketp hpoll hreg
  have hnote : ∀ d, n.after sv (.action s what socketp) s d =
      (n s d).asked (sv.sockets s) (sv.handles s d) d what socketp :=
    fun d => if_pos ⟨rfl, hreg⟩
  apply h.of_ne (s := s) (sv.running_action s what socketp)
  · intro s' hs
    exact sv.sockets_action_ne hs what socketp
  · intro s' d hs
    exact if_neg fun hboth => hs hboth.1
  · intro d _
    have hfits := h.fits s d hreg
    obtain ⟨hqueued, hwatches⟩ := hrest d
    rw [hnote]
    by_cases hstart : Starts (sv.sockets s) what socketp d
    · have hfree := hfits.free_iff.mpr (hallow hpoll hreg d hstart)
      rw [if_pos hstart] at hwatches
      exact hfits.asked_start hpoll hstart hfree hmask hwatches hqueued
    · rw [if_neg hstart] at hwatches
      exact hfits.asked_kept hpoll hstart hmask hwatches hqueued
  · intro d _ hagain hhas
    rw [hmask] at hhas
    rw [hnote] at hagain ⊢
    obtain ⟨heq, hhas'⟩ := Note.asked_eq hpoll hagain hhas
    rw [heq] at hagain ⊢
    exact ⟨hreg, hhas', rfl, hagain⟩

/-- `CURL_POLL_REMOVE` -/
theorem remove (h : Linked n sv) {s : Handle} (hreg : (sv.sockets s).registered = true)
    (hmask : (sv.sockets s).mask ≠ 0) :
    Linked (n.after sv (.action s CURL_POLL_REMOVE true))
      (sv.modify s fun sock => { sock with mask := 0 }.cancel) := by
  have hnote : ∀ d, n.after sv (.action s CURL_POLL_REMOVE true) s d =
      { n s d with left := (n s d).queued, failed := false } := by
    intro d
    simp only [Notes.after, hreg, Note.asked]
    rw [if_pos ⟨trivial, trivial⟩, if_neg (by decide), if_pos ⟨trivial, trivial, hmask⟩]
  apply h.of_ne (s := s) (sv.running_modify s _)
  · intro s' hs
    exact sv.sockets_modify_ne hs _
  · intro s' d hs
    exact if_neg fun hboth => hs hboth.1
  · intro d _
    rw [hnote, sockets_modify_self]
    refine (h.fits s d hreg).removed rfl ?_ ?_
    · rw [Socket.watches, Socket.waiting_cancel, Socket.queued_cancel, Nat.zero_add]
      cases d <;> rfl
    · rw [Socket.queued_cancel]
      cases d <;> rfl
  · intro d _ _ hhas
    rw [sockets_modify_self] at hhas
    exact absurd hhas (Mask.not_has_zero d)

theorem action (h : Linked n sv) {s : Handle} {what : Mask} {socketp : Bool}
    (hallow : n.Allows sv (.action s what socketp)) :
    Linked (n.after sv (.action s what socketp)) (sv.action s what socketp) := by
  by_cases hreg : (sv.sockets s).registered = true
  · by_cases hpoll : what = CURL_POLL_IN ∨ what = CURL_POLL_OUT ∨ what = CURL_POLL_INOUT
    · exact h.polls hpoll hreg hallow
    · by_cases hremove : what = CURL_POLL_REMOVE ∧ socketp = true ∧ (sv.sockets s).mask ≠ 0
      · obtain ⟨rfl, rfl, hmask⟩ := hremove
        have haction : sv.action s CURL_POLL_REMOVE true =
            sv.modify s fun sock => { sock with mask := 0 }.cancel := by
          unfold Service.action
          rw [if_neg hpoll, if_pos rfl, if_pos ⟨rfl, hreg, hmask⟩]
        rw [haction]
        exact h.remove hreg hmask
      · have haction : sv.action s what socketp = sv := by
          unfold Service.action
          rw [if_neg hpoll]
          split_ifs with hwhat hsome
          · exact absurd ⟨hwhat, hsome.1, hsome.2.2⟩ hremove
          · rfl
          · rfl
        have hnote : n.after sv (.action s what socketp) = n := by
          funext s' d
          simp only [Notes.after, Note.asked, if_neg hpoll, if_neg hremove, ite_self]
        rw [haction, hnote]
        exact h
  · have haction : sv.action s what socketp = sv := by
      simp [Service.action, Service.add, hreg]
    have hnote : n.after sv (.action s what socketp) = n := by
      funext s' d
      exact if_neg fun hboth => hreg hboth.2
    rw [haction, hnote]
    exact h

theorem ready (h : Linked n sv) {s : Handle} {d : Direction}
    (hwait : (sv.sockets s).waiting d ≠ 0) :
    Linked (n.after sv (.ready s d)) (sv.modify s fun sock => sock.ready d) := by
  have hother : ∀ e, e ≠ d → n.after sv (.ready s d) s e = n s e := by
    intro e he
    exact if_neg fun hboth => he hboth.2
  have hself : n.after sv (.ready s d) s d = { n s d with queued := true } := if_pos ⟨rfl, rfl⟩
  apply h.of_ne (s := s) (sv.running_modify s _)
  · intro s' hs
    exact sv.sockets_modify_ne hs _
  · intro s' e hs
    exact if_neg fun hboth => hs hboth.1
  · intro e hreg
    rw [sockets_modify_self] at hreg ⊢
    rw [Socket.registered_ready] at hreg
    by_cases he : e = d
    · subst he
      rw [hself]
      exact (h.fits s e hreg).readied hwait
    · rw [hother e he]
      exact (h.fits s e hreg).congr (Socket.mask_ready _ _) (Socket.watches_ready _ hwait e)
        (Socket.queued_ready_ne _ he)
  · intro e hreg hagain hhas
    rw [sockets_modify_self] at hreg hhas
    rw [Socket.registered_ready] at hreg
    rw [Socket.mask_ready] at hhas
    by_cases he : e = d
    · subst he
      rw [hself] at hagain ⊢
      exact ⟨hreg, hhas, rfl, hagain⟩
    · rw [hother e he] at hagain ⊢
      exact ⟨hreg, hhas, rfl, hagain⟩

theorem completed (h : Linked n sv) (hidle : sv.running = none) {s : Handle} {d : Direction}
    (hqueued : (sv.sockets s).queued d ≠ 0) (error : Bool) :
    Linked (n.after sv (.completed s d error))
      { sv.modify s (fun sock => sock.complete d) with
        running := some ⟨s, d, error, (sv.sockets s).mask⟩ } := by
  have hquiet : ∀ s' d', sv.handles s' d' = false := by
    intro s' d'
    rw [handles, hidle]
    rfl
  constructor
  · intro s' d' hreg
    by_cases hs : s' = s
    · subst hs
      simp only [sockets_modify_self, Socket.registered_complete] at hreg ⊢
      have hfits := h.fits s' d' hreg
      by_cases hd : d' = d
      · subst hd
        simpa [Notes.after, handles] using hfits.called_self hqueued error
      · rw [hquiet] at hfits
        have hcalled := (hfits.called_other error).congr (Socket.mask_complete _ d)
          (Socket.watches_complete_ne _ hd) (Socket.queued_complete_ne _ hd)
        simpa [Notes.after, handles, hd, Ne.symm hd] using hcalled
    · simp only [sockets_modify_ne _ hs] at hreg ⊢
      have hfits := h.fits s' d' hreg
      rw [hquiet] at hfits
      simpa [Notes.after, handles, hs, Ne.symm hs] using hfits.called_other error
  · rintro r ⟨rfl⟩ _ _ _
    simp [Notes.after, Note.called]
  · rintro r ⟨rfl⟩ _ d' _ hhas
    simpa using hhas

/-- The end of a handler on a socket that it belongs to. -/
theorem continued (h : Linked n sv) {r : Running} (hr : sv.running = some r)
    (hallow : n.Allows sv .processed) (d : Direction)
    (hreg : (sv.sockets r.sock).registered = true) :
    (n r.sock d).Fits ((sv.continueMonitoring r).sockets r.sock) false d := by
  have hfits := h.fits r.sock d hreg
  have hhandles : sv.handles r.sock d = decide (r.direction = d) := by simp [handles, hr]
  -- a direction that is not handled has its watch, if any
  have hkept : d ≠ r.direction → (n r.sock d).Fits (sv.sockets r.sock) false d := by
    intro hd
    rwa [hhandles, decide_eq_false (Ne.symm hd)] at hfits
  unfold Service.continueMonitoring
  split_ifs with hgoes
  · have hallow' := hallow r hr hgoes.1 hreg d
    unfold Service.update
    rw [sockets_modify_self]
    by_cases harm : Armed (sv.sockets r.sock).mask (r.prev &&& ~~~r.mask) d
    · obtain ⟨hhas, hmissing⟩ := (armed_diff hgoes.1).mp harm
      obtain ⟨hprev, hagain⟩ := hallow' hhas
      obtain rfl := hmissing.resolve_right (not_not.mpr hprev)
      rw [hhandles, decide_eq_true rfl] at hfits
      have hfailed := h.failed r hr hreg (hagain rfl) hhas
      refine hfits.armed (hagain rfl) (hfailed.trans hgoes.1) hhas (Socket.mask_update _ _ _) ?_
        (Socket.queued_update _ _ _ _)
      rw [Socket.watches_update, if_pos harm]
    · have hidle : (n r.sock d).Fits (sv.sockets r.sock) false d := by
        by_cases hd : d = r.direction
        · refine hfits.idle fun hhas _ => ?_
          exact absurd ((armed_diff hgoes.1).mpr ⟨hhas, Or.inl hd⟩) harm
        · exact hkept hd
      refine hidle.congr (Socket.mask_update _ _ _) ?_ (Socket.queued_update _ _ _ _)
      rw [Socket.watches_update, if_neg harm]
      rfl
  · by_cases hd : d = r.direction
    · subst hd
      refine hfits.idle fun hhas hfailed => ?_
      have hsome : (sv.sockets r.sock).mask ≠ 0 := by
        intro hzero
        rw [hzero] at hhas
        exact Mask.not_has_zero _ hhas
      cases hagain : (n r.sock r.direction).again with
      | true => simp [Note.handled, hagain]
      | false =>
        rw [h.failed r hr hreg hagain hhas] at hfailed
        exact absurd ⟨hfailed, hreg, hsome⟩ hgoes
    · exact hkept hd

theorem processed (h : Linked n sv) {r : Running} (hr : sv.running = some r)
    (hallow : n.Allows sv .processed) :
    Linked (n.after sv .processed) { sv.continueMonitoring r with running := none } := by
  constructor
  · intro s d hreg
    have hreg' : ((sv.continueMonitoring r).sockets s).registered = true := hreg
    change (n s d).Fits ((sv.continueMonitoring r).sockets s) false d
    by_cases hs : s = r.sock
    · subst hs
      apply h.continued hr hallow d
      unfold Service.continueMonitoring at hreg'
      split_ifs at hreg' with hgoes
      · exact hgoes.2.1
      · exact hreg'
    · rw [sockets_continueMonitoring_ne _ hs] at hreg' ⊢
      have hhandles : sv.handles s d = false := by simp [handles, hr, Ne.symm hs]
      rw [← hhandles]
      exact h.fits s d hreg'
  · rintro r' ⟨⟩
  · rintro r' ⟨⟩

theorem step (h : Linked n sv) {e : Event} (hallow : n.Allows sv e) {sv' : Service}
    (heffect : sv.Effect e sv') : Linked (n.after sv e) sv' := by
  cases heffect with
  | socket s hfree => exact h.socket hfree
  | close s => exact h.close s
  | action s what socketp => exact h.action hallow
  | ready s d hwait => exact h.ready hwait
  | completed s d error hidle hqueued => exact h.completed hidle hqueued error
  | processed r hr => exact h.processed hr hallow

end Linked

/-- An event that is not allowed doubles a watch. -/
theorem double_step {n : Notes} {sv sv' : Service} {e : Event} (h : Linked n sv)
    (hallow : ¬n.Allows sv e) (heffect : sv.Effect e sv') :
    ∃ s d, (sv'.sockets s).registered = true ∧ 1 < (sv'.sockets s).watches d := by
  cases heffect with
  | socket s => exact absurd trivial hallow
  | close s => exact absurd trivial hallow
  | ready s d => exact absurd trivial hallow
  | completed s d => exact absurd trivial hallow
  | action s what socketp =>
    simp only [Notes.Allows, not_forall] at hallow
    obtain ⟨hpoll, hreg, d, hstart, hleft⟩ := hallow
    obtain ⟨hreg', -, hrest⟩ := action_polls socketp hpoll hreg
    have hwatch : (sv.sockets s).watches d ≠ 0 := fun hfree =>
      hleft ((h.fits s d hreg).free_iff.mp hfree)
    refine ⟨s, d, hreg', ?_⟩
    rw [(hrest d).2, if_pos hstart]
    omega
  | processed r hr =>
    simp only [Notes.Allows, not_forall] at hallow
    obtain ⟨r', hr', herror, hreg, d, hhas, hanew⟩ := hallow
    cases hr.symm.trans hr'
    have hsome : (sv.sockets r.sock).mask ≠ 0 := by
      intro hzero
      rw [hzero] at hhas
      exact Mask.not_has_zero d hhas
    have hfits := h.fits r.sock d hreg
    -- libcurl has begun to ask for the direction while the handler was running
    obtain ⟨hmissing, hagain⟩ : (d = r.direction ∨ ¬r.prev.Has d) ∧
        (n r.sock d).again = true := by
      by_cases hprev : r.prev.Has d
      · obtain ⟨hd, hagain⟩ := Classical.not_imp.mp fun hsame => hanew ⟨hprev, hsame⟩
        exact ⟨Or.inl hd, by simpa using hagain⟩
      · refine ⟨Or.inr hprev, ?_⟩
        by_contra hagain
        exact hprev (h.prev r hr hreg d (by simpa using hagain) hhas)
    have hwatch : (sv.sockets r.sock).watches d = 1 := by
      rw [hfits.watches]
      exact if_pos (Or.inr ⟨hhas, hfits.again hagain, by simp [Note.handled, hagain]⟩)
    use r.sock, d
    change ((sv.continueMonitoring r).sockets r.sock).registered = true ∧
      1 < ((sv.continueMonitoring r).sockets r.sock).watches d
    unfold Service.continueMonitoring
    rw [if_pos ⟨herror, hreg, hsome⟩]
    unfold Service.update
    rw [sockets_modify_self, Socket.registered_update, Socket.watches_update,
      if_pos ((armed_diff herror).mpr ⟨hhas, hmissing⟩)]
    exact ⟨hreg, by omega⟩

theorem linked_fresh : Linked (notes []) fresh := by
  constructor
  · rintro s d ⟨⟩
  · rintro r ⟨⟩
  · rintro r ⟨⟩

/-- In every state of a run each registered socket has at most one watch for each direction
exactly when the callbacks of libcurl and the completions come in an order that is allowed. -/
theorem single_iff_allowed (events : List Event) (sv : Service) (out : List Process)
    (hrun : machine.run fresh events = .ok (sv, out)) :
    (∀ earlier, earlier <+: events → ∀ sv' out',
      machine.run fresh earlier = .ok (sv', out') →
        ∀ s, (sv'.sockets s).registered = true → ∀ d, (sv'.sockets s).watches d ≤ 1) ↔
    ∀ earlier e, earlier ++ [e] <+: events → ∀ sv' out',
      machine.run fresh earlier = .ok (sv', out') → (notes earlier).Allows sv' e := by
  apply machine.run_always_iff
    (fun is out sv => machine.run fresh is = .ok (sv, out) ∧ Linked (notes is) sv)
    (fun _ _ sv => ∀ s, (sv.sockets s).registered = true → ∀ d, (sv.sockets s).watches d ≤ 1)
    (fun is sv e => (notes is).Allows sv e) _ _ _ _ hrun
  · rintro is out sv ⟨-, hlinked⟩ s hreg d
    exact (hlinked.fits s d hreg).le_one
  · rintro is out sv₁ e sv₂ o ⟨hsofar, hlinked⟩ hallow hstep
    refine ⟨machine.run_snoc hsofar hstep, ?_⟩
    rw [notes_snoc hsofar hstep]
    exact hlinked.step hallow (step_effect hstep)
  · rintro is out sv₁ e sv₂ o ⟨-, hlinked⟩ hallow hstep hsingle
    obtain ⟨s, d, hreg, hdouble⟩ := double_step hlinked hallow (step_effect hstep)
    have hle := hsingle s hreg d
    omega
  · exact ⟨rfl, linked_fresh⟩

/-- A read watch completes, and libcurl asks for the other direction after its handler. -/
theorem single_iff_allowed_one_socket :
    let events : List Event := [.socket 5, .action 5 CURL_POLL_IN false, .ready 5 .read,
      .completed 5 .read false, .processed, .action 5 CURL_POLL_OUT true]
    ∃ sv out, machine.run fresh events = .ok (sv, out) ∧
      ((∀ earlier, earlier <+: events → ∀ sv' out',
        machine.run fresh earlier = .ok (sv', out') →
          ∀ s, (sv'.sockets s).registered = true → ∀ d, (sv'.sockets s).watches d ≤ 1) ↔
      ∀ earlier e, earlier ++ [e] <+: events → ∀ sv' out',
        machine.run fresh earlier = .ok (sv', out') → (notes earlier).Allows sv' e) :=
  ⟨_, _, rfl, single_iff_allowed _ _ _ rfl⟩

/-- While the handler of a read watch runs, libcurl asks for both directions: `action`
arms a write watch, and the end of the handler arms another one. -/
theorem handler_doubles_watch :
    ∃ sv out, machine.run fresh [.socket 5, .action 5 CURL_POLL_IN false, .ready 5 .read,
      .completed 5 .read false, .action 5 CURL_POLL_INOUT true, .processed] = .ok (sv, out) ∧
      (sv.sockets 5).registered = true ∧ (sv.sockets 5).watches .write = 2 :=
  ⟨_, _, rfl, rfl, rfl⟩

end Doubled

end Service

end NetComponents.Curl
