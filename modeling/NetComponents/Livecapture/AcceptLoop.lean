import NetComponents.Livecapture.Server
import NetComponents.Scgi.Server

/-!
# Accept loops

Both `scgi::Server` and `livecapture::ServerTCP` accept the next socket at the end of the
callback for the last one. The callback does not run for an error, and it does not get
to its end where the address of the peer cannot be had.
-/

namespace NetComponents

open Library Sockets

/-- One accept is always pending exactly when every input is served. -/
theorem pending_iff_served {ε σ ι ω : Type} (m : Machine ε σ ι ω) (listener : σ → Listener)
    (Served : ι → Prop)
    (hstep : ∀ s i t out, (listener s).Awaits 1 → m.step s i = .ok (t, out) →
      (Served i → (listener t).Awaits 1) ∧ (¬Served i → (listener t).Awaits 0))
    {s t : σ} {is : List ι} {out : List ω} (h : (listener s).Awaits 1)
    (hrun : m.run s is = .ok (t, out)) :
    (∀ earlier, earlier <+: is → ∀ u o, m.run s earlier = .ok (u, o) →
      (listener u).pending = 1) ↔ ∀ i ∈ is, Served i := by
  rw [← m.run_inputs_iff Served hrun]
  apply m.run_always_iff (fun _ _ s => (listener s).Awaits 1)
    (fun _ _ s => (listener s).pending = 1) (fun _ _ i => Served i) _ _ _ h hrun
  · exact fun _ _ _ hawaits => hawaits.pending
  · intro _ _ s i t o hawaits hserved hnext
    exact (hstep s i t o hawaits hnext).1 hserved
  · intro _ _ s i t o hawaits hserved hnext
    rw [((hstep s i t o hawaits hnext).2 hserved).pending]
    exact Nat.zero_ne_one

namespace Scgi.Server

/-- The accept completes with a socket, and the debug message gets the address of its peer. -/
def Served (debug : Bool) : Event → Prop
  | .accepted (.socket socket) => debug = true → socket.endpoint = true
  | .accepted _ => False
  | .freed _ => True

theorem awaits_accept {s : Server} (h : s.listener.Awaits 0) : s.accept.listener.Awaits 1 := by
  obtain ⟨l, hl, hawaits⟩ := h.accept false
  simpa only [accept, hl] using hawaits

theorem awaits_step {debug : Bool} {s t : Server} {e : Event} {out : List Empty}
    (h : s.listener.Awaits 1) (hstep : s.step debug e = .ok (t, out)) :
    (Served debug e → t.listener.Awaits 1) ∧ (¬Served debug e → t.listener.Awaits 0) := by
  cases e with
  | freed id =>
    cases hstep
    exact ⟨fun _ => h, fun hnot => absurd trivial hnot⟩
  | accepted r =>
    unfold step at hstep
    cases hl : s.listener.complete.bind (·.deliver r) with
    | none => simp [hl] at hstep
    | some l =>
      simp only [hl, Except.ok.injEq, Prod.mk.injEq] at hstep
      obtain ⟨rfl, -⟩ := hstep
      obtain ⟨l₁, hcomplete, hdeliver⟩ := Option.bind_eq_some_iff.mp hl
      obtain ⟨hsome, hawaits⟩ := h.deliver hcomplete hdeliver
      cases r with
      | aborted => exact absurd rfl hsome
      | failed => exact ⟨fun hserved => absurd hserved id, fun _ => hawaits⟩
      | socket socket =>
        simp only [Accepted.handle, onAccept, Served]
        cases debug <;> cases socket.endpoint <;> simp [hawaits, awaits_accept]

end Scgi.Server

namespace Livecapture.Server

/-- Accept completions, each followed by its handler. -/
def acceptLoop (debug : Bool) : Machine Fault Server (Accepted Incoming) Output where
  step s r := (machine debug).run s [.complete, .handled r]

/-- The accept completes with a socket, and the debug message gets the address of its peer. -/
def Served (debug : Bool) : Accepted Incoming → Prop
  | .socket r => debug = true → r.endpoint = true
  | _ => False

theorem listener_serve {s : Server} (h : s.listener.Awaits 0) (r : Incoming) :
    (s.serve r).1.listener = s.listener := by
  unfold serve
  split_ifs
  · cases r.attempt with
    | fails => rfl
    | starts => rfl
    | throws kept =>
      cases kept with
      | true => rfl
      | false =>
        change ((s.addClient false).clientGone s.clients.length).listener = s.listener
        rcases (s.addClient false).clientGone_cases s.clients.length with hgone | hgone
        · rw [hgone]
          rfl
        · rw [hgone]
          exact h.cancel
  · rfl

theorem awaits_onAccept {debug : Bool} {s t : Server} {r : Incoming} {out o : List Output}
    (hcall : (onAccept debug r (s, out)).2 = (t, o)) (h : s.listener.Awaits 0) :
    (Served debug (.socket r) → t.listener.Awaits 1) ∧
      (¬Served debug (.socket r) → t.listener.Awaits 0) := by
  obtain ⟨l, hl, hawaits⟩ := h.accept r.refused
  have haccept : (s.serve r).1.accept r.refused = some { (s.serve r).1 with listener := l } := by
    simp [accept, listener_serve h r, hl]
  have ht : t = (onAccept debug r (s, out)).2.1 := by rw [hcall]
  rw [ht]
  simp only [onAccept, Served, haccept]
  cases debug <;> cases r.endpoint <;> simp [h, hawaits]

theorem awaits_completion {debug : Bool} {s t : Server} {r : Accepted Incoming}
    {out : List Output} (h : s.listener.Awaits 1)
    (hstep : (acceptLoop debug).step s r = .ok (t, out)) :
    (Served debug r → t.listener.Awaits 1) ∧ (¬Served debug r → t.listener.Awaits 0) := by
  obtain ⟨s₁, o₁, o₂, hcompletes, hrun, -⟩ := (machine debug).run_cons_ok_iff.mp hstep
  have hhandles := (machine debug).run_singleton_ok_iff.mp hrun
  obtain ⟨u, o, hfire, rfl, -⟩ := step_cases hcompletes
  obtain ⟨l₁, hcomplete, hu⟩ := Option.map_eq_some_iff.mp hfire
  cases hu
  obtain ⟨v, o', hfire', rfl, -⟩ := step_cases hhandles
  obtain ⟨l₂, hdeliver, hv⟩ := Option.map_eq_some_iff.mp hfire'
  rw [(settled _).listener] at hdeliver
  obtain ⟨hsome, hawaits⟩ := h.deliver hcomplete hdeliver
  rw [(settled _).listener]
  cases r with
  | aborted => exact absurd rfl hsome
  | failed =>
    cases hv
    exact ⟨fun hserved => absurd hserved id, fun _ => hawaits⟩
  | socket r => exact awaits_onAccept hv hawaits

end Livecapture.Server

/-- Whatever completes, one accept is pending afterwards exactly when each completion is a socket
of which the debug message can name the peer; for either server. -/
theorem accept_survives_iff (debug : Bool) :
    (∀ (server t : Scgi.Server) events out, server.listener.Awaits 1 →
      (Scgi.Server.machine debug).run server events = .ok (t, out) →
      ((∀ earlier, earlier <+: events → ∀ u o,
        (Scgi.Server.machine debug).run server earlier = .ok (u, o) → u.listener.pending = 1) ↔
        ∀ e ∈ events, Scgi.Server.Served debug e)) ∧
    ∀ (server t : Livecapture.Server) completions out, server.listener.Awaits 1 →
      (Livecapture.Server.acceptLoop debug).run server completions = .ok (t, out) →
      ((∀ earlier, earlier <+: completions → ∀ u o,
        (Livecapture.Server.acceptLoop debug).run server earlier = .ok (u, o) →
          u.listener.pending = 1) ↔
        ∀ r ∈ completions, Livecapture.Server.Served debug r) := by
  constructor
  · intro server t events out h hrun
    exact pending_iff_served _ Scgi.Server.listener (Scgi.Server.Served debug)
      (fun s e t out => Scgi.Server.awaits_step) h hrun
  · intro server t completions out h hrun
    exact pending_iff_served _ Livecapture.Server.listener (Livecapture.Server.Served debug)
      (fun s r t out => Livecapture.Server.awaits_completion) h hrun

/-- A server that `Grabber::open` has started. -/
def Livecapture.Server.accepting : Livecapture.Server :=
  ⟨.returned, true, .waiting, ⟨.tcp, true, 1, 0, 0⟩, 0, [], none, true, true, false⟩

example : (Livecapture.Server.machine true).run (.fresh .tcp)
    [.connect, .wait false, .accept false, .return] =
      .ok (Livecapture.Server.accepting, []) := rfl

theorem accept_survives_iff_full_pool :
    (∀ earlier, earlier <+: [.accepted (.socket ⟨true, 1⟩), .accepted (.socket ⟨true, 2⟩)] →
      ∀ u o, (Scgi.Server.machine true).run (.fresh 1) earlier = .ok (u, o) →
        u.listener.pending = 1) ∧
    ∀ earlier, earlier <+: [.socket ⟨true, true, .starts, false⟩] →
      ∀ u o, (Livecapture.Server.acceptLoop true).run .accepting earlier = .ok (u, o) →
        u.listener.pending = 1 := by
  constructor
  · have hiff := (accept_survives_iff true).1 (.fresh 1) _
      [.accepted (.socket ⟨true, 1⟩), .accepted (.socket ⟨true, 2⟩)] [] ⟨rfl, rfl, rfl, rfl⟩ rfl
    exact hiff.mpr (by simp [Scgi.Server.Served])
  · have hiff := (accept_survives_iff true).2 .accepting _
      [.socket ⟨true, true, .starts, false⟩] [.started] ⟨rfl, rfl, rfl, rfl⟩ rfl
    exact hiff.mpr (by simp [Livecapture.Server.Served])

/-- No accept is left after a peer that has reset already, nor after an error. -/
theorem accept_loop_ends :
    (∃ t, (Scgi.Server.machine true).run (.fresh 200) [.accepted (.socket ⟨false, 1⟩)] =
      .ok (t, []) ∧ t.listener.pending = 0) ∧
    (∃ t, (Scgi.Server.machine true).run (.fresh 200) [.accepted .failed] = .ok (t, []) ∧
      t.listener.pending = 0) ∧
    (∃ t, (Livecapture.Server.acceptLoop true).run .accepting
      [.socket ⟨false, true, .starts, false⟩] = .ok (t, []) ∧ t.listener.pending = 0) ∧
    ∃ t, (Livecapture.Server.acceptLoop true).run .accepting [.failed] = .ok (t, []) ∧
      t.listener.pending = 0 :=
  ⟨⟨_, rfl, rfl⟩, ⟨_, rfl, rfl⟩, ⟨_, rfl, rfl⟩, _, rfl, rfl⟩

end NetComponents
