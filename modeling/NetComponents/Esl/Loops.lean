import NetComponents.Esl.Client

/-!
# The poll loops of one client

`start()` and `stop()` only exchange a flag, and `start()` posts another loop if the flag was
set. A loop looks at the flag now and then, at most a second apart, so it may outlive a `stop()`
for a while.
-/

namespace NetComponents.Esl

open Library

/-- The loop is queued or running. -/
def Point.active : Point → Bool
  | .returned _ => false
  | .threw => false
  | _ => true

/-- A client and all the poll loops that `start()` has posted. -/
structure Loops where
  client : Client
  loops : List Point
  deriving DecidableEq, Repr

namespace Loops

/-- A call of `start()` or `stop()`, or a step of one of the loops. -/
inductive Event where
  | start
  | stop
  | poll (i : ℕ) (r : Result)
  deriving DecidableEq, Repr

def fresh : Loops := ⟨⟨true, false⟩, []⟩

def step (s : Loops) : Event → Except Fault (Loops × List Output)
  | .start =>
    if s.client.stopped then
      .ok (⟨{ s.client with stopped := false }, s.loops ++ [.queued]⟩, [])
    else .ok (s, [])
  | .stop => .ok ({ s with client := { s.client with stopped := true } }, [])
  | .poll i r =>
    match s.loops[i]? with
    | none => .error .disabled
    | some p =>
      match s.client.poll p r with
      | none => .error .disabled
      | some (c, p', out) => .ok (⟨c, s.loops.set i p'⟩, out)

def machine : Machine Fault Loops Event Output where
  step := step

/-- The loops that are queued or running. -/
def active (s : Loops) : ℕ := s.loops.countP Point.active

/-- An exception of a handler leaves the loop. -/
def throws : Result → Bool
  | .notify throws => throws
  | .recv status _ => status.fexit.isNone
  | .disconnect (.success throws) => throws
  | _ => false

/-- `start()` takes effect only when no loop is left, and no exception leaves a loop that has not
been stopped. -/
def Orderly (s : Loops) : Event → Prop
  | .start => s.client.stopped = true → s.active = 0
  | .stop => True
  | .poll _ r => s.client.stopped = false → throws r = false

/-- One loop at most, and one unless the client is stopped; a loop disconnects only then. -/
structure Single (s : Loops) : Prop where
  le : s.active ≤ 1
  running : s.client.stopped = false → s.active = 1
  disconnecting : .disconnecting ∈ s.loops → s.client.stopped = true

theorem single_fresh : fresh.Single := by
  constructor <;> simp [fresh, active]

theorem stopped_step {c c' : Client} {p p' : Point} {r : Result} {out : List Output}
    (h : c.Step p r c' p' out) : c'.stopped = c.stopped := by
  cases h <;> rfl

theorem active_step {c c' : Client} {p p' : Point} {r : Result} {out : List Output}
    (h : c.Step p r c' p' out) : p.active = true := by
  cases h <;> rfl

/-- Only an exception, or the end of `disconnect()`, ends a loop. -/
theorem ends_step {c c' : Client} {p p' : Point} {r : Result} {out : List Output}
    (h : c.Step p r c' p' out) :
    (throws r = true → p'.active = false) ∧
      (p'.active = false → throws r = true ∨ p = .disconnecting) ∧
      (p' = .disconnecting → c.stopped = true) := by
  cases h with
  | stops hstopped => exact ⟨by simp [throws], by simp [Point.active], fun _ => hstopped⟩
  | announces throws => cases throws <;> simp [Loops.throws, Point.active]
  | receives status connected fexit hfexit => simp [throws, hfexit, Point.active]
  | escapes status connected hfexit => simp [throws, hfexit, Point.active]
  | leaves fexit throws hends => cases throws <;> simp [Loops.throws, Point.active]
  | _ => simp [throws, Point.active]

theorem step_cases {s t : Loops} {e : Event} {out : List Output} (h : s.step e = .ok (t, out)) :
    e = .start ∧ s.client.stopped = true ∧
      t = ⟨{ s.client with stopped := false }, s.loops ++ [.queued]⟩ ∨
    e = .start ∧ s.client.stopped = false ∧ t = s ∨
    e = .stop ∧ t = { s with client := { s.client with stopped := true } } ∨
    ∃ i r p c p', e = .poll i r ∧ s.loops[i]? = some p ∧ s.client.Step p r c p' out ∧
      t = ⟨c, s.loops.set i p'⟩ := by
  cases e with
  | start =>
    simp only [step] at h
    split_ifs at h with hstopped
    · cases h
      exact .inl ⟨rfl, hstopped, rfl⟩
    · cases h
      exact .inr (.inl ⟨rfl, by simpa using hstopped, rfl⟩)
  | stop =>
    cases h
    exact .inr (.inr (.inl ⟨rfl, rfl⟩))
  | poll i r =>
    simp only [step] at h
    cases hi : s.loops[i]? with
    | none => simp [hi] at h
    | some p =>
      cases hpoll : s.client.poll p r with
      | none => simp [hi, hpoll] at h
      | some u =>
        simp only [hi, hpoll, Except.ok.injEq, Prod.mk.injEq] at h
        obtain ⟨rfl, rfl⟩ := h
        exact .inr (.inr (.inr ⟨i, r, p, _, _, rfl, hi, Client.poll_step hpoll, rfl⟩))

theorem active_start (s : Loops) (c : Client) :
    active ⟨c, s.loops ++ [.queued]⟩ = s.active + 1 := by
  simp [active, Point.active]

theorem active_poll {s : Loops} {i : ℕ} {p : Point} (hi : s.loops[i]? = some p)
    (hp : p.active = true) (c : Client) (p' : Point) :
    active ⟨c, s.loops.set i p'⟩ + 1 = s.active + if p'.active then 1 else 0 := by
  have hset := Machine.countP_set_add Point.active hi p'
  rwa [if_pos hp] at hset

theorem Single.next {s t : Loops} {e : Event} {out : List Output} (h : s.Single)
    (horderly : s.Orderly e) (hstep : s.step e = .ok (t, out)) : t.Single := by
  rcases step_cases hstep with ⟨rfl, hstopped, rfl⟩ | ⟨rfl, -, rfl⟩ | ⟨rfl, rfl⟩ |
    ⟨i, r, p, c, p', rfl, hi, hpoll, rfl⟩
  · have hnone := horderly hstopped
    have hactive := active_start s { s.client with stopped := false }
    refine ⟨by omega, fun _ => by omega, ?_⟩
    intro hmem
    rcases List.mem_append.mp hmem with hmem | hmem
    · have hpos : 0 < s.active := List.countP_pos_iff.mpr ⟨_, hmem, rfl⟩
      omega
    · cases List.mem_singleton.mp hmem
  · exact h
  · refine ⟨h.le, ?_, fun _ => rfl⟩
    rintro ⟨⟩
  · have hactive := active_poll hi (active_step hpoll) c p'
    have hsame := stopped_step hpoll
    obtain ⟨-, hends, hdisconnecting⟩ := ends_step hpoll
    refine ⟨?_, ?_, ?_⟩
    · have hle := h.le
      split_ifs at hactive <;> omega
    · intro hrunning
      rw [hsame] at hrunning
      have hone := h.running hrunning
      cases hp' : p'.active with
      | true =>
        rw [hp'] at hactive
        simp only [if_true] at hactive
        omega
      | false =>
        -- the loop has neither thrown nor come to its end
        rcases hends hp' with hthrows | rfl
        · exact absurd ((horderly hrunning).symm.trans hthrows) Bool.false_ne_true
        · have hstopped := h.disconnecting (List.mem_of_getElem? hi)
          exact absurd (hrunning.symm.trans hstopped) Bool.false_ne_true
    · intro hmem
      rw [hsame]
      rcases List.mem_or_eq_of_mem_set hmem with hmem | hnew
      · exact h.disconnecting hmem
      · exact hdisconnecting hnew.symm

theorem Single.breaks {s t : Loops} {e : Event} {out : List Output} (h : s.Single)
    (horderly : ¬s.Orderly e) (hstep : s.step e = .ok (t, out)) :
    ¬(t.active ≤ 1 ∧ (t.client.stopped = false → t.active = 1)) := by
  rintro ⟨hle, hone⟩
  rcases step_cases hstep with ⟨rfl, hstopped, rfl⟩ | ⟨rfl, hrunning, rfl⟩ | ⟨rfl, rfl⟩ |
    ⟨i, r, p, c, p', rfl, hi, hpoll, rfl⟩
  · have hactive := active_start s { s.client with stopped := false }
    exact horderly fun _ => by omega
  · exact horderly fun hstopped => absurd (hrunning.symm.trans hstopped) Bool.false_ne_true
  · exact horderly trivial
  · simp only [Orderly, not_forall, Bool.not_eq_false] at horderly
    obtain ⟨hrunning, hthrows⟩ := horderly
    have hactive := active_poll hi (active_step hpoll) c p'
    have hend := (ends_step hpoll).1 hthrows
    rw [hend] at hactive
    have hbefore := h.running hrunning
    have hafter := hone ((stopped_step hpoll).trans hrunning)
    simp only [Bool.false_eq_true, if_false] at hactive
    omega

/-- There is never a second loop, and there is one unless the client is stopped, exactly when
`start()` never takes effect while a loop is left, and no exception leaves a loop that has not
been stopped. -/
theorem one_loop_iff (events : List Event) (t : Loops) (out : List Output)
    (hrun : machine.run fresh events = .ok (t, out)) :
    (∀ earlier, earlier <+: events → ∀ s o, machine.run fresh earlier = .ok (s, o) →
      s.active ≤ 1 ∧ (s.client.stopped = false → s.active = 1)) ↔
    ∀ earlier e, earlier ++ [e] <+: events → ∀ s o,
      machine.run fresh earlier = .ok (s, o) → s.Orderly e :=
  machine.run_always_iff (fun _ _ s => s.Single)
    (fun _ _ s => s.active ≤ 1 ∧ (s.client.stopped = false → s.active = 1))
    (fun _ s e => s.Orderly e) (fun _ _ _ h => ⟨h.le, h.running⟩)
    (fun _ _ _ _ _ _ h horderly hstep => h.next horderly hstep)
    (fun _ _ _ _ _ _ h horderly hstep => h.breaks horderly hstep) single_fresh hrun

theorem one_loop_iff_restarted :
    ∃ t out, machine.run fresh [.start, .stop, .poll 0 .none, .poll 0 .none, .poll 0 .none,
        .start] = .ok (t, out) ∧
      ((∀ earlier, earlier <+: [.start, .stop, .poll 0 .none, .poll 0 .none, .poll 0 .none,
          .start] → ∀ s o, machine.run fresh earlier = .ok (s, o) →
        s.active ≤ 1 ∧ (s.client.stopped = false → s.active = 1)) ↔
      ∀ earlier e, earlier ++ [e] <+: [.start, .stop, .poll 0 .none, .poll 0 .none,
          .poll 0 .none, .start] → ∀ s o,
        machine.run fresh earlier = .ok (s, o) → s.Orderly e) :=
  ⟨_, _, rfl, one_loop_iff _ _ _ rfl⟩

/-- A quick restart leaves two loops, and a handler that throws leaves none. -/
theorem not_one_loop :
    (∃ s out, machine.run fresh [.start, .poll 0 .none, .stop, .start] = .ok (s, out) ∧
      s.client.stopped = false ∧ s.active = 2) ∧
    ∃ s out, machine.run fresh [.start, .poll 0 .none, .poll 0 .none,
        .poll 0 (.connect true true), .poll 0 (.notify true)] = .ok (s, out) ∧
      s.client.stopped = false ∧ s.active = 0 :=
  ⟨⟨_, _, rfl, rfl, rfl⟩, _, _, rfl, rfl, rfl⟩

end Loops

end NetComponents.Esl
