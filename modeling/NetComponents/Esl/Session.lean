import NetComponents.Esl.Client

/-!
# Sessions of one poll loop

A session may end while libesl leaves the connected flag set: after a disconnect notice, after
an error of `esl_recv_event_timed`, or when a connection attempt fails. The loop then goes on
as if the flag was clear. If it connects again, `reset()` zeroes the handle, and if it was
stopped, `disconnect()` closes a session whose end has been notified before.
-/

namespace NetComponents.Esl

open Library

/-- `stop()`, which may be called at any moment, or a step of the loop. A `start()` while the loop
runs, which takes the `stop()` back and posts a second loop, is not among the events. -/
inductive Event where
  | stop
  | poll (r : Result)
  deriving DecidableEq, Repr

/-- One poll loop. -/
def pollLoop : Machine Fault (Client × Point) Event Output where
  step s
    | .stop => .ok (({ s.1 with stopped := true }, s.2), [])
    | .poll r =>
      match s.1.poll s.2 r with
      | none => .error .disabled
      | some (c, p, out) => .ok ((c, p), out)

/-- A poll loop that has just been posted. -/
def posted (connected : Bool) : Client × Point := (⟨false, connected⟩, .queued)

theorem pollLoop_cases {s t : Client × Point} {e : Event} {out : List Output}
    (h : pollLoop.step s e = .ok (t, out)) :
    e = .stop ∧ t = ({ s.1 with stopped := true }, s.2) ∧ out = [] ∨
    ∃ r, e = .poll r ∧ s.1.Step s.2 r t.1 t.2 out := by
  cases e with
  | stop =>
    cases h
    exact .inl ⟨rfl, rfl, rfl⟩
  | poll r =>
    right
    simp only [pollLoop] at h
    cases hpoll : s.1.poll s.2 r with
    | none => simp [hpoll] at h
    | some u =>
      simp only [hpoll, Except.ok.injEq, Prod.mk.injEq] at h
      obtain ⟨rfl, rfl⟩ := h
      exact ⟨r, rfl, Client.poll_step hpoll⟩

section Lingering

/-- Whether an answer of libesl leaves the connected flag set after an attempt that failed or a
session that has ended. -/
def lingersAfter (lingering : Bool) : Event → Bool
  | .poll (.connect ok connected) => !ok && connected
  | .poll (.recv status connected) => status.fexit == some true && connected
  | _ => lingering

def lingers (connected : Bool) (events : List Event) : Bool :=
  events.foldl lingersAfter connected

@[simp] theorem lingers_snoc (connected : Bool) (events : List Event) (e : Event) :
    lingers connected (events ++ [e]) = lingersAfter (lingers connected events) e := by
  simp [lingers]

/-- How the connected flag relates to what libesl has answered, at each point of the loop. -/
def Flagged (c : Client) (lingering : Bool) : Point → Prop
  | .queued => c.connected = lingering
  | .head => (lingering = true → c.connected = true) ∧
      (c.connected = true → lingering = true ∨ c.stopped = true)
  | .connecting => c.connected = false
  | .announcing => c.connected = true ∧ lingering = false
  | .subscribing => c.connected = true ∧ lingering = false
  | .receiving fexit => if fexit then c.connected = lingering else lingering = false
  | .reading => c.connected = true ∧ lingering = false
  | .leaving fexit => if fexit then c.connected = lingering else
      lingering = false ∧ (c.connected = true → c.stopped = true)
  | .waiting => c.connected = lingering
  | .disconnecting => lingering = true → c.connected = true
  | .returned _ => True
  | .threw => True

theorem flagged_head {c : Client} {lingering : Bool} (h : c.connected = lingering) :
    Flagged c lingering .head :=
  ⟨fun hl => h.trans hl, fun hc => .inl (h.symm.trans hc)⟩

theorem Flagged.stop {c : Client} {lingering : Bool} {p : Point} (h : Flagged c lingering p) :
    Flagged { c with stopped := true } lingering p := by
  cases p with
  | head => exact ⟨h.1, fun _ => .inr rfl⟩
  | leaving fexit =>
    cases fexit with
    | true => exact h
    | false => exact ⟨h.1, fun _ => rfl⟩
  | _ => exact h

theorem Flagged.step {c c' : Client} {lingering : Bool} {p p' : Point} {r : Result}
    {out : List Output} (h : Flagged c lingering p) (hstep : c.Step p r c' p' out) :
    Flagged c' (lingersAfter lingering (.poll r)) p' := by
  cases hstep with
  | begins => exact flagged_head h
  | stops hstopped => exact h.1
  | resets hstopped => rfl
  | connects => exact ⟨rfl, rfl⟩
  | fails ok connected hfails =>
    cases ok with
    | true => simp [Flagged, lingersAfter, hfails rfl]
    | false => rfl
  | announces throws =>
    cases throws with
    | true => trivial
    | false => exact h
  | subscribes connected => exact h.2
  | reads hstopped hconnected => exact ⟨hconnected, h⟩
  | ends fexit hends =>
    cases fexit with
    | true => exact h
    | false =>
      refine ⟨h, fun hconnected => ?_⟩
      simpa [hconnected] using hends
  | receives status connected fexit hfexit =>
    cases fexit with
    | true => simp [Flagged, lingersAfter, hfexit]
    | false => simp [Flagged, lingersAfter, hfexit]
  | escapes status connected hfexit => trivial
  | leaves fexit throws hends =>
    cases throws with
    | true => trivial
    | false =>
      cases fexit with
      | true => exact flagged_head h
      | false =>
        have hcleared : c.connected = false := by simpa using hends
        exact flagged_head (hcleared.trans h.1.symm)
  | stays hconnected =>
    refine ⟨fun hl => ?_, fun _ => .inr (h.2 hconnected)⟩
    exact absurd (h.1.symm.trans hl) Bool.false_ne_true
  | waits => exact flagged_head h
  | releases hconnected => trivial
  | releaseThrows hconnected => trivial
  | releaseFails hconnected connected => trivial
  | released hconnected => trivial

end Lingering

theorem Flagged.next {s t : Client × Point} {lingering : Bool} {e : Event} {out : List Output}
    (h : Flagged s.1 lingering s.2) (hstep : pollLoop.step s e = .ok (t, out)) :
    Flagged t.1 (lingersAfter lingering e) t.2 := by
  rcases pollLoop_cases hstep with ⟨rfl, rfl, -⟩ | ⟨r, rfl, hpoll⟩
  · exact h.stop
  · exact h.step hpoll

section Reset

/-- The event leads to no reset of a handle with its connected flag set: the loop does not go on
while the flag lingers, and an `esl_disconnect` that fails clears it. -/
def Releases (lingering : Bool) (s : Client × Point) : Event → Prop
  | .poll .none => s.2 = .head → s.1.stopped = false → lingering = false
  | .poll (.disconnect (.failure connected)) => connected = false
  | _ => True

theorem reset_step {c c' : Client} {lingering : Bool} {p p' : Point} {r : Result}
    {out : List Output} (h : Flagged c lingering p) (hstep : c.Step p r c' p' out) :
    .reset true ∈ out ↔ ¬Releases lingering (c, p) (.poll r) := by
  cases hstep with
  | resets hstopped =>
    cases hl : lingering with
    | true => simp [Releases, hstopped, h.1 hl]
    | false =>
      have hcleared : c.connected = false := by
        by_contra hc
        rcases h.2 (by simpa using hc) with hl' | hs
        · exact absurd (hl.symm.trans hl') Bool.false_ne_true
        · exact absurd (hstopped.symm.trans hs) Bool.false_ne_true
      simp [Releases, hstopped, hcleared]
  | stops hstopped => simp [Releases, hstopped]
  | releaseFails hconnected connected => simp [Releases, eq_comm]
  | announces throws => simp [Releases]
  | leaves fexit throws hends => simp [Releases]
  | _ => simp [Releases]

theorem reset_next {s t : Client × Point} {lingering : Bool} {e : Event} {out : List Output}
    (h : Flagged s.1 lingering s.2) (hstep : pollLoop.step s e = .ok (t, out)) :
    .reset true ∈ out ↔ ¬Releases lingering s e := by
  rcases pollLoop_cases hstep with ⟨rfl, -, rfl⟩ | ⟨r, rfl, hpoll⟩
  · simp [Releases]
  · exact reset_step h hpoll

/-- No handle is zeroed while its connected flag is set exactly when the flag never lingers as
the loop goes on, and a failing `esl_disconnect` clears it. -/
theorem reset_releases_iff (connected : Bool) (events : List Event) (t : Client × Point)
    (out : List Output) (hrun : pollLoop.run (posted connected) events = .ok (t, out)) :
    .reset true ∉ out ↔ ∀ earlier e, earlier ++ [e] <+: events → ∀ s o,
      pollLoop.run (posted connected) earlier = .ok (s, o) →
        Releases (lingers connected earlier) s e := by
  have hposted : Flagged (posted connected).1 (lingers connected []) (posted connected).2 := rfl
  have halways := pollLoop.run_always_iff
    (fun is out s => Flagged s.1 (lingers connected is) s.2 ∧ .reset true ∉ out)
    (fun _ out _ => .reset true ∉ out)
    (fun is s e => Releases (lingers connected is) s e)
    (fun _ _ _ h => h.2)
    (by
      rintro is out s e s' o ⟨hflagged, hout⟩ hreleases hstep
      refine ⟨by simpa using hflagged.next hstep, ?_⟩
      simp [hout, reset_next hflagged hstep, hreleases])
    (by
      rintro is out s e s' o ⟨hflagged, hout⟩ hreleases hstep hnone
      exact hnone (List.mem_append_right _ ((reset_next hflagged hstep).mpr hreleases)))
    ⟨hposted, by simp⟩ hrun
  rw [← halways]
  constructor
  · intro hnone earlier hearlier s o hs hmem
    obtain ⟨s', o', hs', ho⟩ := pollLoop.run_initial hearlier hrun
    cases hs.symm.trans hs'
    exact hnone (ho.subset hmem)
  · intro hall
    exact hall events (List.prefix_refl events) t out hrun

/-- A session that ends as libesl finds it disconnected. -/
def lostSession : List Event :=
  [.poll .none, .poll .none, .poll (.connect true true), .poll (.notify false),
    .poll (.subscribe true), .poll .none, .poll (.recv .ESL_DISCONNECTED false), .poll .none,
    .poll (.notify false), .poll .none]

theorem reset_releases_iff_lost :
    ∃ t out, pollLoop.run (posted false) lostSession = .ok (t, out) ∧
      (.reset true ∉ out ↔ ∀ earlier e, earlier ++ [e] <+: lostSession → ∀ s o,
        pollLoop.run (posted false) earlier = .ok (s, o) →
          Releases (lingers false earlier) s e) :=
  ⟨_, _, rfl, reset_releases_iff false _ _ _ rfl⟩

/-- A disconnect notice ends a session that libesl keeps connected, and the loop connects
again. -/
theorem reset_abandons_session :
    ∃ t out, pollLoop.run (posted false) [.poll .none, .poll .none, .poll (.connect true true),
        .poll (.notify false), .poll (.subscribe true), .poll .none,
        .poll (.recv (.ESL_SUCCESS (some .notice)) true), .poll .none, .poll (.notify false),
        .poll .none] = .ok (t, out) ∧ .reset true ∈ out :=
  ⟨_, _, rfl, by decide⟩

end Reset

section Notices

/-- The notifications, in order. -/
def notices (out : List Output) : List Notice :=
  out.filterMap fun
    | .notice n => some n
    | .reset _ => none

/-- The last notification; before the first one the client is disconnected. -/
def lastNotice (out : List Output) : Notice := (notices out).getLastD .disconnected

/-- Notifications alternate, the first one being that of a connection. -/
def Alternating (out : List Output) : Prop := (Notice.disconnected :: notices out).IsChain (· ≠ ·)

theorem notices_append (out o : List Output) : notices (out ++ o) = notices out ++ notices o :=
  List.filterMap_append

theorem alternating_snoc (out : List Output) (n : Notice) :
    Alternating (out ++ [.notice n]) ↔ Alternating out ∧ lastNotice out ≠ n := by
  have hlast : (Notice.disconnected :: notices out).getLast? = some (lastNotice out) := by
    rw [List.getLast?_cons, lastNotice, List.getLastD_eq_getLast?]
  unfold Alternating
  rw [notices_append, ← List.cons_append, List.isChain_append, hlast]
  simp [notices]

@[simp] theorem lastNotice_snoc (out : List Output) (n : Notice) :
    lastNotice (out ++ [.notice n]) = n := by
  simp [lastNotice, notices]

theorem notices_reset (out : List Output) (connected : Bool) :
    notices (out ++ [.reset connected]) = notices out := by
  simp [notices]

@[simp] theorem alternating_reset (out : List Output) (connected : Bool) :
    Alternating (out ++ [.reset connected]) ↔ Alternating out := by
  rw [Alternating, notices_reset, Alternating]

@[simp] theorem lastNotice_reset (out : List Output) (connected : Bool) :
    lastNotice (out ++ [.reset connected]) = lastNotice out := by
  rw [lastNotice, notices_reset, lastNotice]

/-- What was notified last, at each point of the loop. -/
def Notified (c : Client) (lingering : Bool) (last : Notice) : Point → Prop
  | .queued => last = .disconnected
  | .head => last = .connected ↔ c.connected = true ∧ lingering = false
  | .connecting => last = .disconnected
  | .announcing => last = .disconnected
  | .subscribing => last = .connected
  | .receiving _ => last = .connected
  | .reading => last = .connected
  | .leaving _ => last = .connected
  | .waiting => last = .disconnected
  | .disconnecting => last = .connected ↔ c.connected = true ∧ lingering = false
  | .returned released => released = true → last = .disconnected
  | .threw => True

/-- Notifications have alternated, and the last one fits the point that the loop has reached. -/
structure Told (lingering : Bool) (out : List Output) (s : Client × Point) : Prop where
  flagged : Flagged s.1 lingering s.2
  alternating : Alternating out
  notified : Notified s.1 lingering (lastNotice out) s.2

/-- A session that `esl_disconnect` closes has not ended before. -/
def ClosesOpen (lingering : Bool) : Event → Prop
  | .poll (.disconnect (.success _)) => lingering = false
  | _ => True

/-- The loop begins anew with nothing to announce the end of. -/
theorem notified_head {c : Client} {lingering : Bool} {last : Notice}
    (hconnected : c.connected = lingering) (hlast : last = .disconnected) :
    Notified c lingering last .head := by
  simp [Notified, hconnected, hlast]

theorem notified_step {c c' : Client} {lingering : Bool} {p p' : Point} {r : Result}
    {out o : List Output} (h : Told lingering out (c, p)) (hstep : c.Step p r c' p' o)
    (hcloses : ClosesOpen lingering (.poll r)) : Alternating (out ++ o) ∧
      Notified c' (lingersAfter lingering (.poll r)) (lastNotice (out ++ o)) p' := by
  obtain ⟨hflagged, halternating, hnotified⟩ := h
  -- a step without output leaves the notifications as they are
  have hsilent : out ++ [] = out := List.append_nil out
  cases hstep with
  | begins =>
    rw [hsilent]
    exact ⟨halternating, notified_head hflagged hnotified⟩
  | stops hstopped => rwa [hsilent, and_iff_right halternating]
  | resets hstopped =>
    refine ⟨by simpa using halternating, ?_⟩
    rw [lastNotice_reset]
    change lastNotice out = .disconnected
    cases hlast : lastNotice out with
    | disconnected => rfl
    | connected =>
      obtain ⟨hconnected, hl⟩ := hnotified.mp hlast
      rcases hflagged.2 hconnected with hl' | hs
      · exact absurd (hl.symm.trans hl') Bool.false_ne_true
      · exact absurd (hstopped.symm.trans hs) Bool.false_ne_true
  | connects => rwa [hsilent, and_iff_right halternating]
  | fails ok connected hfails => rwa [hsilent, and_iff_right halternating]
  | announces throws =>
    have hlast : lastNotice out = .disconnected := hnotified
    refine ⟨(alternating_snoc _ _).mpr ⟨halternating, by simp [hlast]⟩, ?_⟩
    cases throws with
    | true => trivial
    | false => exact lastNotice_snoc out .connected
  | subscribes connected => rwa [hsilent, and_iff_right halternating]
  | reads hstopped hconnected => rwa [hsilent, and_iff_right halternating]
  | ends fexit hends => rwa [hsilent, and_iff_right halternating]
  | receives status connected fexit hfexit => rwa [hsilent, and_iff_right halternating]
  | escapes status connected hfexit => exact ⟨by rwa [hsilent], trivial⟩
  | leaves fexit throws hends =>
    have hlast : lastNotice out = .connected := hnotified
    refine ⟨(alternating_snoc _ _).mpr ⟨halternating, by simp [hlast]⟩, ?_⟩
    cases throws with
    | true => trivial
    | false =>
      have hnone := lastNotice_snoc out .disconnected
      cases fexit with
      | true => exact notified_head hflagged hnone
      | false =>
        have hcleared : c.connected = false := by simpa using hends
        exact notified_head (hcleared.trans hflagged.1.symm) hnone
  | stays hconnected =>
    rw [hsilent]
    exact ⟨halternating, iff_of_true hnotified ⟨hconnected, hflagged.1⟩⟩
  | waits =>
    rw [hsilent]
    exact ⟨halternating, notified_head hflagged hnotified⟩
  | releases hconnected =>
    have hlast : lastNotice out = .connected := hnotified.mpr ⟨hconnected, hcloses⟩
    rw [List.append_cons, alternating_reset, lastNotice_reset, alternating_snoc]
    exact ⟨⟨halternating, by simp [hlast]⟩, fun _ => lastNotice_snoc out .disconnected⟩
  | releaseThrows hconnected =>
    have hlast : lastNotice out = .connected := hnotified.mpr ⟨hconnected, hcloses⟩
    exact ⟨(alternating_snoc _ _).mpr ⟨halternating, by simp [hlast]⟩, trivial⟩
  | releaseFails hconnected connected =>
    exact ⟨by simpa using halternating, fun hreleased => absurd hreleased (by simp)⟩
  | released hconnected =>
    exact ⟨by simpa using halternating, fun hreleased => absurd hreleased (by simp)⟩

theorem Told.next {s t : Client × Point} {lingering : Bool} {e : Event} {out o : List Output}
    (h : Told lingering out s) (hcloses : ClosesOpen lingering e)
    (hstep : pollLoop.step s e = .ok (t, o)) : Told (lingersAfter lingering e) (out ++ o) t := by
  rcases pollLoop_cases hstep with ⟨rfl, rfl, rfl⟩ | ⟨r, rfl, hpoll⟩
  · rw [List.append_nil]
    refine ⟨h.flagged.stop, h.alternating, ?_⟩
    have hnotified := h.notified
    cases hp : s.2 <;> rw [hp] at hnotified <;> exact hnotified
  · obtain ⟨halternating, hnotified⟩ := notified_step h hpoll hcloses
    exact ⟨h.flagged.step hpoll, halternating, hnotified⟩

/-- A second notification for a session that has ended. -/
theorem Told.breaks {s t : Client × Point} {lingering : Bool} {e : Event} {out o : List Output}
    (h : Told lingering out s) (hcloses : ¬ClosesOpen lingering e)
    (hstep : pollLoop.step s e = .ok (t, o)) : ¬Alternating (out ++ o) := by
  rcases pollLoop_cases hstep with ⟨rfl, -, -⟩ | ⟨r, rfl, hpoll⟩
  · exact absurd trivial hcloses
  · obtain ⟨c, p⟩ := s
    obtain ⟨c', p'⟩ := t
    have hended : ∀ throws, r = .disconnect (.success throws) → p = .disconnecting →
        lastNotice out = .disconnected := by
      rintro throws rfl rfl
      cases hlast : lastNotice out with
      | disconnected => rfl
      | connected => exact absurd (h.notified.mp hlast).2 hcloses
    cases hpoll with
    | releases hconnected =>
      rw [List.append_cons, alternating_reset, alternating_snoc]
      exact fun hboth => hboth.2 (hended false rfl rfl)
    | releaseThrows hconnected =>
      rw [alternating_snoc]
      exact fun hboth => hboth.2 (hended true rfl rfl)
    | _ => exact absurd trivial hcloses

/-- Notifications alternate, and a loop that has closed its session has notified it, exactly when
`esl_disconnect` never succeeds on a session that has ended, or an attempt that has failed,
before. -/
theorem notices_alternate_iff (connected : Bool) (events : List Event) (t : Client × Point)
    (out : List Output) (hrun : pollLoop.run (posted connected) events = .ok (t, out)) :
    (∀ earlier, earlier <+: events → ∀ s o,
      pollLoop.run (posted connected) earlier = .ok (s, o) →
        Alternating o ∧ (s.2 = .returned true → lastNotice o = .disconnected)) ↔
    ∀ earlier e, earlier ++ [e] <+: events → ClosesOpen (lingers connected earlier) e := by
  have hposted : Told (lingers connected []) [] (posted connected) :=
    ⟨rfl, List.isChain_singleton _, rfl⟩
  have halways := pollLoop.run_always_iff (fun is out s => Told (lingers connected is) out s)
    (fun _ out s => Alternating out ∧ (s.2 = .returned true → lastNotice out = .disconnected))
    (fun is _ e => ClosesOpen (lingers connected is) e)
    (by
      intro is out s h
      refine ⟨h.alternating, fun hreturned => ?_⟩
      have hnotified := h.notified
      rw [hreturned] at hnotified
      exact hnotified rfl)
    (by
      intro is out s e s' o h hcloses hstep
      rw [lingers_snoc]
      exact h.next hcloses hstep)
    (by
      intro is out s e s' o h hcloses hstep hboth
      exact h.breaks hcloses hstep hboth.1)
    hposted hrun
  rw [halways]
  constructor
  · intro hall earlier e hearlier
    obtain ⟨s, o, hs, -⟩ := pollLoop.run_initial ((List.prefix_append _ _).trans hearlier) hrun
    exact hall earlier e hearlier s o hs
  · intro hall earlier e hearlier _ _ _
    exact hall earlier e hearlier

/-- A session that is open when `stop()` is called. -/
def stoppedSession : List Event :=
  [.poll .none, .poll .none, .poll (.connect true true), .poll (.notify false),
    .poll (.subscribe true), .stop, .poll .none, .poll .none, .poll .none,
    .poll (.disconnect (.success false))]

theorem notices_alternate_iff_stopped :
    ∃ t out, pollLoop.run (posted false) stoppedSession = .ok (t, out) ∧
      ((∀ earlier, earlier <+: stoppedSession → ∀ s o,
        pollLoop.run (posted false) earlier = .ok (s, o) →
          Alternating o ∧ (s.2 = .returned true → lastNotice o = .disconnected)) ↔
      ∀ earlier e, earlier ++ [e] <+: stoppedSession →
        ClosesOpen (lingers false earlier) e) :=
  ⟨_, _, rfl, notices_alternate_iff false _ _ _ rfl⟩

/-- A disconnect notice ends a session, and `stop()` is called while `ondisconnect` is notified. -/
theorem notices_repeat :
    ∃ t out, pollLoop.run (posted false) [.poll .none, .poll .none, .poll (.connect true true),
        .poll (.notify false), .poll (.subscribe true), .poll .none,
        .poll (.recv (.ESL_SUCCESS (some .notice)) true), .poll .none, .poll (.notify false),
        .stop, .poll .none, .poll (.disconnect (.success false))] = .ok (t, out) ∧
      notices out = [.connected, .disconnected, .disconnected] :=
  ⟨_, _, rfl, rfl⟩

end Notices

end NetComponents.Esl
