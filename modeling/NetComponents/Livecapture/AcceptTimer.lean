import NetComponents.Livecapture.Server

/-!
# The accept timer and a running capture

A started client stops the accept timer. That aborts a wait that is still going on; a
handler that is queued as expired runs all the same, and cancels the listener. A server
without accept operations is destroyed, and its destructor terminates the client.
-/

namespace NetComponents.Livecapture

open Library Sockets

namespace Server

/-- `start()` has accepted, or thrown. -/
def Through (s : Server) : Prop := s.opening = .returning ∨ s.opening = .returned

/-- An accept operation exists only after `start()` has accepted. -/
def Listening (s : Server) : Prop := s.listener.operations ≠ 0 → s.Through

theorem Listening.of_eq {s t : Server} (h : s.Listening) (hopening : t.opening = s.opening)
    (hoperations : t.listener.operations = s.listener.operations) : t.Listening := by
  intro hop
  unfold Through
  rw [hopening]
  exact h (by rwa [hoperations] at hop)

theorem Listening.none {s : Server} (h : s.Listening) (hthrough : ¬s.Through) :
    s.listener.operations = 0 := by
  by_contra hop
  exact hthrough (h hop)

theorem Listening.effect {s s' : Server} {out : List Output} (h : s.Listening)
    (heffect : s.Effect s' out) : s'.Listening := by
  cases heffect with
  | connects hopening =>
    have hnone := h.none (by simp [Through, hopening])
    exact fun hop => absurd hnone hop
  | throws hopening => exact fun _ => .inl rfl
  | waits hopening =>
    have hnone := h.none (by simp [Through, hopening])
    rw [startWait_eq]
    exact fun hop => absurd hnone hop
  | listens hopening l => exact fun _ => .inl rfl
  | returns hopening => exact fun _ => .inr rfl
  | expires hwait => exact h
  | timeout hwait => exact h.of_eq rfl s.listener.operations_cancel
  | aborts hwait => exact h
  | operates hop l => exact fun _ => h hop
  | serves hop r l l' =>
    intro _
    have hframe := frame_serve { s with listener := l } r
    unfold Through
    rw [hframe.opening]
    exact h hop
  | terminates => exact h.of_eq rfl s.listener.operations_cancel
  | ignores => exact h
  | gone client =>
    exact h.of_eq (s.frame_clientGone client).opening (s.operations_clientGone client)

/-- The handler of the accept timer will not find that its wait has expired. -/
def Spared (s : Server) : Prop := s.Through ∧ (s.wait = .none ∨ s.wait = .aborted)

theorem Spared.of_eq {s t : Server} (h : s.Spared) (hopening : t.opening = s.opening)
    (hwait : t.wait = s.wait ∨ t.wait = s.stopAcceptTimer.wait) : t.Spared := by
  obtain ⟨hthrough, hstopped⟩ := h
  refine ⟨by rwa [Through, hopening], ?_⟩
  have hsame : s.stopAcceptTimer.wait = s.wait := by
    rcases hstopped with h | h <;> simp [stopAcceptTimer, h]
  rw [hsame, or_self] at hwait
  rwa [hwait]

theorem Spared.effect {s s' : Server} {out : List Output} (h : s.Spared)
    (heffect : s.Effect s' out) : s'.Spared ∧ .timeout ∉ out := by
  have hthrough := h.1
  have hstopped := h.2
  cases heffect with
  | connects hopening => rcases hthrough with h | h <;> cases hopening.symm.trans h
  | throws hopening => rcases hthrough with h | h <;> cases hopening.symm.trans h
  | waits hopening => rcases hthrough with h | h <;> cases hopening.symm.trans h
  | listens hopening l => rcases hthrough with h | h <;> cases hopening.symm.trans h
  | returns hopening => exact ⟨⟨.inr rfl, hstopped⟩, by simp⟩
  | expires hwait => rcases hstopped with h | h <;> cases hwait.symm.trans h
  | timeout hwait => rcases hstopped with h | h <;> cases hwait.symm.trans h
  | aborts hwait => exact ⟨⟨hthrough, .inl rfl⟩, by simp⟩
  | operates hop l => exact ⟨h, by simp⟩
  | serves hop r l l' =>
    constructor
    · exact h.of_eq (frame_serve _ r).opening (wait_serve _ r)
    · rcases serve_cases { s with listener := l } r with ⟨hout, -⟩ | ⟨-, hout, -⟩ <;> simp [hout]
  | terminates => exact ⟨h.of_eq rfl (.inr rfl), by simp⟩
  | ignores => exact ⟨h, by simp⟩
  | gone client =>
    exact ⟨h.of_eq (s.frame_clientGone client).opening (s.wait_clientGone client), by simp⟩

theorem Listening.step {debug : Bool} {s t : Server} {e : Event} {out : List Output}
    (h : s.Listening) (hstep : s.step debug e = .ok (t, out)) : t.Listening := by
  obtain ⟨s', o, hfire, rfl, -⟩ := step_cases hstep
  exact (h.effect (fire_effect hfire)).of_eq s'.settled.opening (by rw [s'.settled.listener])

theorem Spared.step {debug : Bool} {s t : Server} {e : Event} {out : List Output}
    (h : s.Spared) (hstep : s.step debug e = .ok (t, out)) : t.Spared ∧ .timeout ∉ out := by
  obtain ⟨s', o, hfire, rfl, rfl⟩ := step_cases hstep
  obtain ⟨hspared, hout⟩ := h.effect (fire_effect hfire)
  refine ⟨hspared.of_eq s'.settled.opening (.inl s'.settled.wait), ?_⟩
  intro hmem
  rcases List.mem_append.mp hmem with hmem | hmem
  · exact hout hmem
  · cases output_settle hmem

theorem Spared.run {debug : Bool} {s t : Server} {events : List Event} {out : List Output}
    (h : s.Spared) (hrun : (machine debug).run s events = .ok (t, out)) : .timeout ∉ out := by
  have hboth : t.Spared ∧ .timeout ∉ out :=
    (machine debug).run_invariant (fun _ out t => t.Spared ∧ .timeout ∉ out)
      (by
        intro _ out s e t o hs hstep
        obtain ⟨ht, ho⟩ := hs.1.step hstep
        refine ⟨ht, ?_⟩
        simp [hs.2, ho])
      ⟨h, by simp⟩ hrun
  exact hboth.2

/-- The accept callback that starts a client stops the accept timer. -/
theorem wait_of_started {debug : Bool} {s t : Server} {r : Incoming} {out : List Output}
    (hstep : s.step debug (.handled (.socket r)) = .ok (t, out)) (hstarted : .started ∈ out) :
    s.listener.operations ≠ 0 ∧ t.opening = s.opening ∧ t.wait = s.stopAcceptTimer.wait := by
  obtain ⟨s', o, hfire, rfl, rfl⟩ := step_cases hstep
  have hfired : .started ∈ o := by
    rcases List.mem_append.mp hstarted with hmem | hmem
    · exact hmem
    · cases output_settle hmem
  obtain ⟨l, hl, hs⟩ := Option.map_eq_some_iff.mp hfire
  refine ⟨Listener.operations_of_deliver hl, ?_⟩
  rcases onAccept_cases { s with listener := l } debug r [] with hno | ⟨l', hserve⟩
  · cases hno.symm.trans hs
    cases hfired
  · cases hserve.symm.trans hs
    rcases serve_cases { s with listener := l } r with ⟨hout, -⟩ | ⟨-, -, -, hwait⟩
    · simp [hout] at hfired
    · exact ⟨(settled _).opening.trans (frame_serve _ r).opening, (settled _).wait.trans hwait⟩

/-- Once a client is started the accept timer does not cancel the listener, whatever follows,
exactly when its expiry was not queued yet when the accept was handled. -/
theorem accept_timer_spares_client_iff (debug : Bool) (protocol : Protocol)
    (events : List Event) (s : Server) (out : List Output)
    (hrun : (machine debug).run (fresh protocol) events = .ok (s, out))
    (r : Incoming) (s' : Server) (o : List Output)
    (hstep : s.step debug (.handled (.socket r)) = .ok (s', o)) (hstarted : .started ∈ o) :
    (∀ later t o', (machine debug).run s' later = .ok (t, o') → .timeout ∉ o') ↔
      s.wait ≠ .expired := by
  obtain ⟨hop, hopening, hwait⟩ := wait_of_started hstep hstarted
  constructor
  · intro hspared hexpired
    have hqueued : s'.wait = .expired := by simp [hwait, stopAcceptTimer, hexpired]
    obtain ⟨t, o', htimer, htimeout⟩ :
        ∃ t o', s'.step debug .timer = .ok (t, o') ∧ .timeout ∈ o' := by
      simp only [step, fire, hqueued]
      exact ⟨_, _, rfl, by simp⟩
    exact hspared [.timer] t o' ((machine debug).run_singleton_ok_iff.mpr htimer) htimeout
  · intro hwaiting later t o' hlater
    have hlistening : s.Listening :=
      (machine debug).run_invariant (fun _ _ s => s.Listening)
        (fun _ _ _ _ _ _ h hstep => h.step hstep) (fun hop => absurd rfl hop) hrun
    have hspared : s'.Spared := by
      refine ⟨?_, ?_⟩
      · unfold Through
        rw [hopening]
        exact hlistening hop
      · rw [hwait]
        unfold stopAcceptTimer
        cases hw : s.wait <;> simp_all
    exact hspared.run hlater

theorem accept_timer_spares_client_iff_waiting :
    ∃ s s', (machine true).run (fresh .tcp) [.connect, .wait false, .accept false, .return,
        .complete] = .ok (s, []) ∧
      s.step true (.handled (.socket ⟨true, true, .starts, false⟩)) = .ok (s', [.started]) ∧
      ((∀ later t o', (machine true).run s' later = .ok (t, o') → .timeout ∉ o') ↔
        s.wait ≠ .expired) := by
  have hrun : (machine true).run (fresh .tcp) [.connect, .wait false, .accept false, .return,
      .complete] = .ok (⟨.returned, true, .waiting, ⟨.tcp, true, 0, 1, 0⟩, 0, [], none, true, true,
        false⟩, []) := rfl
  have hstep : step true ⟨.returned, true, .waiting, ⟨.tcp, true, 0, 1, 0⟩, 0, [], none, true,
      true, false⟩ (.handled (.socket ⟨true, true, .starts, false⟩)) = .ok (⟨.returned, false,
        .aborted, ⟨.tcp, true, 1, 0, 0⟩, 1, [⟨true, false, false⟩], some 0, true, true, false⟩,
        [.started]) := rfl
  exact ⟨_, _, hrun, hstep,
    accept_timer_spares_client_iff true .tcp _ _ _ hrun _ _ _ hstep (by decide)⟩

/-- The accept completes and the timer expires; the handler of the accept runs first. -/
theorem accept_timer_ends_capture :
    (∃ s s' t, (machine false).run (fresh .tcp) [.connect, .wait false, .accept false, .return,
        .complete, .expire] = .ok (s, []) ∧
      s.step false (.handled (.socket ⟨true, true, .starts, false⟩)) = .ok (s', [.started]) ∧
      (machine false).run s' [.timer, .handled .aborted] = .ok (t, [.timeout, .released]) ∧
      t.destroyed = true ∧ t.clients = [⟨true, true, false⟩]) ∧
    ∃ s s' t, (machine false).run (fresh .websocket) [.connect, .wait false, .accept false,
        .return, .complete, .expire] = .ok (s, []) ∧
      s.step false (.handled (.socket ⟨true, true, .starts, false⟩)) = .ok (s', [.started]) ∧
      (machine false).run s' [.timer, .handled .aborted] = .ok (t, [.timeout, .released]) ∧
      t.destroyed = true ∧ t.clients = [⟨true, true, false⟩] :=
  ⟨⟨_, _, _, rfl, rfl, rfl, rfl, rfl⟩, _, _, _, rfl, rfl, rfl, rfl, rfl⟩

end Server

end NetComponents.Livecapture
