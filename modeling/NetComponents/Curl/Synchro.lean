import NetComponents.Library.Machine

/-!
# Waiting for a transfer

`Synchro::wait` blocks on a condition variable until `finish` has set a flag, or until a time is
over. A wait may also wake up for no reason, and it takes the mutex again some time after it has
woken up, so that `finish` can come in between. Any number of threads may wait.
-/

namespace NetComponents.Curl

open Library

/-- Why `wait_until` ends. It returns `no_timeout` for the first two. -/
inductive Wake where
  | notified
  | spurious
  | timeout
  deriving DecidableEq, Repr

/-- A call of `wait`: it has released the mutex, it has woken up, or it has returned. -/
inductive Waiter where
  | waiting
  | woken (w : Wake)
  | gone
  deriving DecidableEq, Repr

/-- The calls of `finish` that have set the flag and not yet notified, the calls of `wait` in their
order, and whether the transfer still exists. -/
structure Synchro where
  finished : Bool
  notifying : ℕ
  waiters : List Waiter
  transfer : Bool
  deriving DecidableEq, Repr

namespace Synchro

/-- A thread calls `wait` and gets the mutex; `finish` sets the flag, and it notifies; a wait wakes
up, unless it is notified; a wait that has woken up gets the mutex; the transfer is destroyed. -/
inductive Event where
  | wait
  | finish
  | notify
  | spurious (i : ℕ)
  | timeout (i : ℕ)
  | resume (i : ℕ)
  | expire
  deriving DecidableEq, Repr

inductive Output where
  | cancel (i : ℕ)
  | returned (i : ℕ) (result : Bool)
  deriving DecidableEq, Repr

/-- Events that cannot happen in a state. -/
inductive Fault where
  | notFinishing
  | notWaiting
  | notWoken
  deriving DecidableEq, Repr

def fresh : Synchro := ⟨false, 0, [], true⟩

def Waiter.notify : Waiter → Waiter
  | .waiting => .woken .notified
  | w => w

/-- The wait `i` wakes up. -/
def wake (s : Synchro) (i : ℕ) (w : Wake) : Except Fault (Synchro × List Output) :=
  match s.waiters[i]? with
  | some .waiting => .ok ({ s with waiters := s.waiters.set i (.woken w) }, [])
  | _ => .error .notWaiting

/-- `wait`, from `wait_until` to its end. -/
def resume (s : Synchro) (i : ℕ) : Wake → List Output
  | .notified | .spurious => [.returned i true]
  | .timeout =>
    if s.finished then [.returned i true]
    else (if s.transfer then [.cancel i] else []) ++ [.returned i false]

def step (s : Synchro) : Event → Except Fault (Synchro × List Output)
  | .wait =>
    if s.finished then
      .ok ({ s with waiters := s.waiters ++ [.gone] }, [.returned s.waiters.length true])
    else .ok ({ s with waiters := s.waiters ++ [.waiting] }, [])
  | .finish => .ok ({ s with finished := true, notifying := s.notifying + 1 }, [])
  | .notify =>
    if s.notifying = 0 then .error .notFinishing
    else
      .ok ({ s with notifying := s.notifying - 1, waiters := s.waiters.map Waiter.notify }, [])
  | .spurious i => s.wake i .spurious
  | .timeout i => s.wake i .timeout
  | .resume i =>
    match s.waiters[i]? with
    | some (.woken w) => .ok ({ s with waiters := s.waiters.set i .gone }, s.resume i w)
    | _ => .error .notWoken
  | .expire => .ok ({ s with transfer := false }, [])

def machine : Machine Fault Synchro Event Output where
  step := step

/-- The outputs of a step from `s` tell the truth: a wait returns true exactly if the flag is set
then, and it has cancelled the transfer, if there still is one, exactly if it returns false. -/
def Truthful (s : Synchro) (out : List Output) : Prop :=
  ∀ i result, .returned i result ∈ out →
    (result = true ↔ s.finished = true) ∧
      (.cancel i ∈ out ↔ result = false ∧ s.transfer = true)

/-- What an event that can happen does. -/
inductive Effect (s : Synchro) : Event → Synchro → List Output → Prop where
  | wait (hopen : s.finished = false) :
      Effect s .wait { s with waiters := s.waiters ++ [.waiting] } []
  | pass (hfinished : s.finished = true) :
      Effect s .wait { s with waiters := s.waiters ++ [.gone] }
        [.returned s.waiters.length true]
  | finish : Effect s .finish { s with finished := true, notifying := s.notifying + 1 } []
  | notify (hnotifying : s.notifying ≠ 0) :
      Effect s .notify
        { s with notifying := s.notifying - 1, waiters := s.waiters.map Waiter.notify } []
  | spurious (i : ℕ) :
      Effect s (.spurious i) { s with waiters := s.waiters.set i (.woken .spurious) } []
  | timeout (i : ℕ) :
      Effect s (.timeout i) { s with waiters := s.waiters.set i (.woken .timeout) } []
  | resume (i : ℕ) (w : Wake) (hwoken : s.waiters[i]? = some (.woken w)) :
      Effect s (.resume i) { s with waiters := s.waiters.set i .gone } (s.resume i w)
  | expire : Effect s .expire { s with transfer := false } []

theorem wake_ok {s s' : Synchro} {i : ℕ} {w : Wake} {out : List Output}
    (h : s.wake i w = .ok (s', out)) :
    s' = { s with waiters := s.waiters.set i (.woken w) } ∧ out = [] := by
  unfold wake at h
  split at h
  · cases h
    exact ⟨rfl, rfl⟩
  · cases h

theorem step_effect {s s' : Synchro} {e : Event} {out : List Output}
    (h : s.step e = .ok (s', out)) : s.Effect e s' out := by
  cases e with
  | wait =>
    simp only [step] at h
    split_ifs at h with hfinished
    · cases h
      exact .pass hfinished
    · cases h
      exact .wait (by simpa using hfinished)
  | finish =>
    cases h
    exact .finish
  | notify =>
    simp only [step] at h
    split_ifs at h with hnotifying
    cases h
    exact .notify hnotifying
  | spurious i =>
    obtain ⟨rfl, rfl⟩ := wake_ok h
    exact .spurious i
  | timeout i =>
    obtain ⟨rfl, rfl⟩ := wake_ok h
    exact .timeout i
  | resume i =>
    simp only [step] at h
    split at h
    · rename_i hwoken
      cases h
      exact .resume i _ hwoken
    · cases h
  | expire =>
    cases h
    exact .expire

/-- A wait is notified only after the flag has been set. -/
structure Notices (s : Synchro) : Prop where
  notifying : s.notifying ≠ 0 → s.finished = true
  woken : .woken .notified ∈ s.waiters → s.finished = true

theorem Notices.set {s : Synchro} (h : s.Notices) (i : ℕ) {w : Waiter}
    (hw : w ≠ .woken .notified) : Notices { s with waiters := s.waiters.set i w } := by
  refine ⟨h.notifying, fun hmem => ?_⟩
  rcases List.mem_or_eq_of_mem_set hmem with hmem | heq
  · exact h.woken hmem
  · exact absurd heq.symm hw

theorem Notices.effect {s s' : Synchro} {e : Event} {out : List Output} (h : s.Notices)
    (heffect : s.Effect e s' out) : s'.Notices := by
  cases heffect with
  | wait | pass => exact ⟨h.notifying, fun hmem => h.woken (by simpa using hmem)⟩
  | finish => exact ⟨fun _ => rfl, fun _ => rfl⟩
  | notify hnotifying => exact ⟨fun _ => h.notifying hnotifying, fun _ => h.notifying hnotifying⟩
  | spurious i | timeout i | resume i => exact h.set i nofun
  | expire => exact ⟨h.notifying, h.woken⟩

theorem notices_run {is : List Event} {s : Synchro} {out : List Output}
    (hrun : machine.run fresh is = .ok (s, out)) : s.Notices :=
  machine.run_invariant (fun _ _ s => s.Notices)
    (fun _ _ _ _ _ _ h hstep => h.effect (step_effect hstep))
    ⟨by simp [fresh], by simp [fresh]⟩ hrun

/-- A wait that ends in this state tells the truth, unless it has woken up for no reason. -/
theorem truthful_resume_iff {s : Synchro} (hs : s.Notices) {i : ℕ} {w : Wake}
    (hwoken : s.waiters[i]? = some (.woken w)) :
    s.Truthful (s.resume i w) ↔ (w = .spurious → s.finished = true) := by
  cases w with
  | notified =>
    have hfinished := hs.woken (List.mem_of_getElem? hwoken)
    simp [Truthful, resume, hfinished]
  | spurious => simp [Truthful, resume]
  | timeout =>
    cases hfinished : s.finished with
    | true => simp [Truthful, resume, hfinished]
    | false =>
      cases htransfer : s.transfer with
      | true => simp [Truthful, resume, hfinished, htransfer]
      | false => simp [Truthful, resume, hfinished, htransfer]

/-- A wait that has woken up for no reason ends only when the flag is set. -/
def NotMisled (s : Synchro) (e : Event) : Prop :=
  ∀ i, e = .resume i → s.waiters[i]? = some (.woken .spurious) → s.finished = true

theorem truthful_iff {s s' : Synchro} (hs : s.Notices) {e : Event} {out : List Output}
    (h : s.step e = .ok (s', out)) : s.Truthful out ↔ s.NotMisled e := by
  cases step_effect h with
  | resume i w hwoken =>
    rw [truthful_resume_iff hs hwoken]
    simp [NotMisled, hwoken]
  | pass hfinished => simp [Truthful, NotMisled, hfinished]
  | _ => simp [Truthful, NotMisled]

/-- Every wait of a run tells the truth if and only if none that has woken up for no reason ends
before the flag is set. -/
theorem waits_truthful_iff {is : List Event} {t : Synchro} {out : List Output}
    (hrun : machine.run fresh is = .ok (t, out)) :
    (∀ js e, js ++ [e] <+: is → ∀ s o, machine.run fresh js = .ok (s, o) →
        ∀ s' o', machine.step s e = .ok (s', o') → s.Truthful o') ↔
      ∀ js e, js ++ [e] <+: is → ∀ s o, machine.run fresh js = .ok (s, o) → s.NotMisled e := by
  constructor
  · intro hall js e hjs s o hs
    obtain ⟨s', o', hnext, -⟩ := machine.run_initial hjs hrun
    obtain ⟨u, o₁, o₂, hu, hstep, -⟩ := machine.run_snoc_ok_iff.mp hnext
    cases hs.symm.trans hu
    exact (truthful_iff (notices_run hs) hstep).mp (hall js e hjs s o hs _ _ hstep)
  · intro hall js e hjs s o hs s' o' hstep
    exact (truthful_iff (notices_run hs) hstep).mpr (hall js e hjs s o hs)

theorem spurious_of_run {is : List Event} {s : Synchro} {out : List Output}
    (hrun : machine.run fresh is = .ok (s, out)) (hwoken : .woken .spurious ∈ s.waiters) :
    ∃ i, .spurious i ∈ is := by
  refine machine.run_invariant
    (fun is _ s => .woken .spurious ∈ s.waiters → ∃ i, .spurious i ∈ is) ?_
    (by simp [fresh]) hrun hwoken
  intro is _ s e s' _ h hstep hwoken
  have hearlier : .woken .spurious ∈ s.waiters → ∃ i, .spurious i ∈ is ++ [e] := by
    intro hmem
    obtain ⟨i, hi⟩ := h hmem
    exact ⟨i, List.mem_append_left _ hi⟩
  cases step_effect hstep with
  | wait | pass => exact hearlier (by simpa using hwoken)
  | finish | expire => exact hearlier hwoken
  | notify =>
    obtain ⟨w, hw, heq⟩ := List.mem_map.mp hwoken
    cases w with
    | woken w => exact hearlier (heq ▸ hw)
    | waiting | gone => cases heq
  | spurious i => exact ⟨i, by simp⟩
  | timeout i | resume i =>
    rcases List.mem_or_eq_of_mem_set hwoken with hmem | heq
    · exact hearlier hmem
    · cases heq

/-- A wait whose time is over when `finish` comes, and one that is notified. -/
theorem waits_truthful_iff_race :
    ∃ t out, machine.run fresh [.wait, .wait, .timeout 0, .finish, .notify, .resume 0, .resume 1] =
        .ok (t, out) ∧
      ∀ js e, js ++ [e] <+: [.wait, .wait, .timeout 0, .finish, .notify, .resume 0, .resume 1] →
        ∀ s o, machine.run fresh js = .ok (s, o) →
          ∀ s' o', machine.step s e = .ok (s', o') → s.Truthful o' := by
  obtain ⟨t, out, hrun⟩ : ∃ t out, machine.run fresh
      [.wait, .wait, .timeout 0, .finish, .notify, .resume 0, .resume 1] = .ok (t, out) :=
    ⟨_, _, rfl⟩
  refine ⟨t, out, hrun, (waits_truthful_iff hrun).mpr ?_⟩
  intro js e hjs s o hs i _ hwoken
  obtain ⟨j, hj⟩ := spurious_of_run hs (List.mem_of_getElem? hwoken)
  have hmem := hjs.subset (List.mem_append_left _ hj)
  simp at hmem

/-- A wait wakes up for no reason: it returns true, and nothing is finished or cancelled. -/
theorem misled_wait :
    ¬∀ is s out e s' o, machine.run fresh is = .ok (s, out) → machine.step s e = .ok (s', o) →
      s.Truthful o := by
  intro hall
  have htrue := hall [.wait, .spurious 0] _ _ (.resume 0) _ _ rfl rfl
  exact absurd ((htrue 0 true (by decide)).1.mp rfl) (by decide)

end Synchro

end NetComponents.Curl
