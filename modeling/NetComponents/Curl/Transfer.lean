import NetComponents.Library.Machine

/-!
# The result handler of a transfer

`exec` stores the handler and attaches the easy handle, once for the lifetime of the transfer.
libcurl delivers one DONE message for each handle that was added, `dispatch` posts `done`, and
`done` calls the handler and then resets it. A handler may call `exec` itself, so the two parts of
`done` are two events.
-/

namespace NetComponents.Curl

open Library

/-- The handlers, each by the number of the call that has set it. -/
structure Transfer where
  done : Option ℕ
  read : Option ℕ
  write : Option ℕ
  attached : Bool
  deriving DecidableEq, Repr

namespace Transfer

def fresh : Transfer := ⟨none, none, none, false⟩

def reset (t : Transfer) : Transfer := { t with done := none, read := none, write := none }

/-- `attach`, and whether it returns normally. libcurl takes the handle or refuses it (`added`). -/
def attach (t : Transfer) (added : Bool) : Transfer × Bool :=
  if t.attached = false then
    if added then ({ t with attached := true }, true) else (t, false)
  else (t, true)

/-- `exec`, and whether it returns normally. -/
def exec (t : Transfer) (h : ℕ) (added : Bool) : Transfer × Bool :=
  match { t with done := some h }.attach added with
  | (t, true) => (t, true)
  | (t, false) => (t.reset, false)

end Transfer

/-- A transfer that is in use: the number of calls of `exec`, the DONE messages that libcurl will
deliver, the results of the posted calls of `done`, and whether one of them is running. -/
structure Use where
  transfer : Transfer
  execs : ℕ
  messages : ℕ
  posted : List ℤ
  running : Bool
  deriving DecidableEq, Repr

namespace Use

inductive Event where
  | exec (added : Bool)
  | read (h : ℕ)
  | write (h : ℕ)
  | message (result : ℤ)
  | done
  | reset
  deriving DecidableEq, Repr

def Event.isExec : Event → Bool
  | exec _ => true
  | _ => false

/-- What happens to the calls of `exec`, by their number. -/
inductive Output where
  | returned (exec : ℕ)
  | threw (exec : ℕ)
  | invoked (exec : ℕ) (error : ℤ)
  deriving DecidableEq, Repr

/-- Events that cannot happen in a state. -/
inductive Fault where
  | noMessage
  | noCall
  deriving DecidableEq, Repr

def fresh : Use := ⟨.fresh, 0, 0, [], false⟩

def exec (u : Use) (added : Bool) : Use × List Output :=
  match u.transfer.exec (u.execs + 1) added with
  | (t, true) =>
    ({ u with
        transfer := t
        execs := u.execs + 1
        messages := u.messages + if u.transfer.attached then 0 else 1 },
      [.returned (u.execs + 1)])
  | (t, false) => ({ u with transfer := t, execs := u.execs + 1 }, [.threw (u.execs + 1)])

/-- The first part of `done`: the handler is called, if there is one. -/
def done (u : Use) (result : ℤ) : List Output :=
  match u.transfer.done with
  | some h => [.invoked h result]
  | none => []

def step (u : Use) : Event → Except Fault (Use × List Output)
  | .exec added => .ok (u.exec added)
  | .read h => .ok ({ u with transfer := { u.transfer with read := some h } }, [])
  | .write h => .ok ({ u with transfer := { u.transfer with write := some h } }, [])
  | .message result =>
    if u.messages = 0 then .error .noMessage
    else .ok ({ u with messages := u.messages - 1, posted := u.posted ++ [result] }, [])
  | .done =>
    match u.running, u.posted with
    | false, result :: posted =>
      .ok ({ u with posted := posted, running := true }, u.done result)
    | _, _ => .error .noCall
  | .reset =>
    if u.running then .ok ({ u with transfer := u.transfer.reset, running := false }, [])
    else .error .noCall

def machine : Machine Fault Use Event Output where
  step := step

/-- Nothing is outstanding: no DONE message and no call of `done`. -/
structure Quiet (u : Use) : Prop where
  messages : u.messages = 0
  posted : u.posted = []
  running : u.running = false

/-- The calls of `exec` whose handlers have been called. -/
def invocations (out : List Output) : List ℕ :=
  out.filterMap fun
    | .invoked h _ => some h
    | _ => none

/-- There is no handler left, and each `exec` that has returned normally has had its handler called
exactly once. -/
structure Settled (out : List Output) (u : Use) : Prop where
  done : u.transfer.done = none
  once : ∀ h, .returned h ∈ out → (invocations out).count h = 1

@[simp] theorem invocations_append (out o : List Output) :
    invocations (out ++ o) = invocations out ++ invocations o := List.filterMap_append

@[simp] theorem invocations_nil : invocations [] = [] := rfl

@[simp] theorem invocations_returned (h : ℕ) : invocations [.returned h] = [] := rfl

@[simp] theorem invocations_threw (h : ℕ) : invocations [.threw h] = [] := rfl

theorem exec_attached {u : Use} (h : u.transfer.attached = true) (added : Bool) :
    u.exec added =
      ({ u with transfer := { u.transfer with done := some (u.execs + 1) }, execs := u.execs + 1 },
        [.returned (u.execs + 1)]) := by
  simp [exec, Transfer.exec, Transfer.attach, h]

theorem exec_added {u : Use} (h : u.transfer.attached = false) :
    u.exec true =
      ({ u with
          transfer := { u.transfer with done := some (u.execs + 1), attached := true }
          execs := u.execs + 1
          messages := u.messages + 1 },
        [.returned (u.execs + 1)]) := by
  simp [exec, Transfer.exec, Transfer.attach, h]

theorem exec_refused {u : Use} (h : u.transfer.attached = false) :
    u.exec false =
      ({ u with transfer := u.transfer.reset, execs := u.execs + 1 }, [.threw (u.execs + 1)]) := by
  simp [exec, Transfer.exec, Transfer.attach, Transfer.reset, h]

/-- What an event that can happen does. -/
inductive Effect (u : Use) : Event → Use → List Output → Prop where
  | reused (added : Bool) (hattached : u.transfer.attached = true) :
      Effect u (.exec added)
        { u with transfer := { u.transfer with done := some (u.execs + 1) }, execs := u.execs + 1 }
        [.returned (u.execs + 1)]
  | added (hattached : u.transfer.attached = false) :
      Effect u (.exec true)
        { u with
          transfer := { u.transfer with done := some (u.execs + 1), attached := true }
          execs := u.execs + 1
          messages := u.messages + 1 }
        [.returned (u.execs + 1)]
  | refused (hattached : u.transfer.attached = false) :
      Effect u (.exec false) { u with transfer := u.transfer.reset, execs := u.execs + 1 }
        [.threw (u.execs + 1)]
  | read (h : ℕ) : Effect u (.read h) { u with transfer := { u.transfer with read := some h } } []
  | write (h : ℕ) :
      Effect u (.write h) { u with transfer := { u.transfer with write := some h } } []
  | message (result : ℤ) (hmessages : 0 < u.messages) :
      Effect u (.message result)
        { u with messages := u.messages - 1, posted := u.posted ++ [result] } []
  | done (result : ℤ) (posted : List ℤ) (hrunning : u.running = false)
      (hposted : u.posted = result :: posted) :
      Effect u .done { u with posted := posted, running := true } (u.done result)
  | reset (hrunning : u.running = true) :
      Effect u .reset { u with transfer := u.transfer.reset, running := false } []

theorem step_effect {u u' : Use} {e : Event} {out : List Output} (h : u.step e = .ok (u', out)) :
    u.Effect e u' out := by
  cases e with
  | exec added =>
    simp only [step, Except.ok.injEq] at h
    cases hattached : u.transfer.attached with
    | true =>
      rw [exec_attached hattached] at h
      cases h
      exact .reused added hattached
    | false =>
      cases added with
      | true =>
        rw [exec_added hattached] at h
        cases h
        exact .added hattached
      | false =>
        rw [exec_refused hattached] at h
        cases h
        exact .refused hattached
  | read h' =>
    cases h
    exact .read h'
  | write h' =>
    cases h
    exact .write h'
  | message result =>
    simp only [step] at h
    split_ifs at h with hmessages
    cases h
    exact .message result (Nat.pos_of_ne_zero hmessages)
  | done =>
    simp only [step] at h
    split at h
    · rename_i hrunning hposted
      cases h
      exact .done _ _ hrunning hposted
    · cases h
  | reset =>
    simp only [step] at h
    split_ifs at h with hrunning
    cases h
    exact .reset hrunning

section OnlyOnce

/-- What the calls of `done` that are still to come and the handlers that were called amount to:
libcurl is given the handle once at most. -/
structure Budget (out : List Output) (u : Use) : Prop where
  attached : u.transfer.attached = true →
    (invocations out).length + u.messages + u.posted.length ≤ 1
  unused : u.transfer.attached = false →
    invocations out = [] ∧ u.messages = 0 ∧ u.posted = []

theorem invocations_done (u : Use) (result : ℤ) :
    invocations (u.done result) = u.transfer.done.toList := by
  rw [done]
  cases u.transfer.done with
  | none => rfl
  | some h => rfl

theorem Budget.effect {out o : List Output} {u u' : Use} {e : Event} (h : Budget out u)
    (heffect : u.Effect e u' o) : Budget (out ++ o) u' := by
  have hunused := h.unused
  cases heffect with
  | reused added hattached =>
    exact ⟨fun _ => by simpa using h.attached hattached,
      fun hnot => by simp [hattached] at hnot⟩
  | added hattached =>
    obtain ⟨hout, hmessages, hposted⟩ := hunused hattached
    exact ⟨fun _ => by simp [hout, hmessages, hposted], fun hnot => by simp at hnot⟩
  | refused hattached =>
    have hnone := hunused hattached
    exact ⟨fun hyes => by simp [Transfer.reset, hattached] at hyes,
      fun _ => by simpa using hnone⟩
  | read | write => exact ⟨by simpa using h.attached, by simpa using hunused⟩
  | message result hmessages =>
    refine ⟨fun hattached => ?_, fun hattached => ?_⟩
    · have hle := h.attached hattached
      simp only [List.append_nil, List.length_append, List.length_singleton]
      omega
    · have hzero := (hunused hattached).2.1
      omega
  | done result posted hrunning hposted =>
    refine ⟨fun hattached => ?_, fun hattached => ?_⟩
    · have hle := h.attached hattached
      have hone : u.transfer.done.toList.length ≤ 1 := by cases u.transfer.done <;> simp
      rw [hposted, List.length_cons] at hle
      simp only [invocations_append, invocations_done, List.length_append]
      omega
    · have hnil := (hunused hattached).2.2
      rw [hposted] at hnil
      cases hnil
  | reset =>
    exact ⟨by simpa [Transfer.reset] using h.attached, by simpa [Transfer.reset] using hunused⟩

theorem budget_run {is : List Event} {u : Use} {out : List Output}
    (hrun : machine.run fresh is = .ok (u, out)) : Budget out u :=
  machine.run_invariant (fun _ out u => Budget out u)
    (fun _ _ _ _ _ _ h hstep => h.effect (step_effect hstep))
    ⟨by simp [fresh, Transfer.fresh], by simp [fresh]⟩ hrun

/-- How many events it takes until nothing is outstanding. -/
def outstanding (u : Use) : ℕ := 3 * u.messages + 2 * u.posted.length + if u.running then 1 else 0

theorem exists_step {u : Use} (h : ¬Quiet u) :
    ∃ e u' o, machine.step u e = .ok (u', o) ∧ e.isExec = false ∧
      u'.outstanding < u.outstanding := by
  by_cases hrunning : u.running = true
  · have hstep : machine.step u .reset =
        .ok ({ u with transfer := u.transfer.reset, running := false }, []) := if_pos hrunning
    refine ⟨.reset, _, _, hstep, rfl, ?_⟩
    simp [outstanding, hrunning]
  · cases hposted : u.posted with
    | cons result posted =>
      have hstep : machine.step u .done =
          .ok ({ u with posted := posted, running := true }, u.done result) := by
        simp only [machine, step, hrunning, hposted]
      refine ⟨.done, _, _, hstep, rfl, ?_⟩
      simp only [outstanding, hposted, List.length_cons, if_neg hrunning, if_true]
      omega
    | nil =>
      have hmessages : u.messages ≠ 0 := by
        intro hzero
        exact h ⟨hzero, hposted, by simpa using hrunning⟩
      have hstep : machine.step u (.message 0) =
          .ok ({ u with messages := u.messages - 1, posted := u.posted ++ [0] }, []) :=
        if_neg hmessages
      refine ⟨.message 0, _, _, hstep, rfl, ?_⟩
      simp only [outstanding, hposted, List.nil_append, List.length_singleton, List.length_nil]
      omega

/-- What is outstanding can be delivered. -/
theorem exists_quiet (u : Use) :
    ∃ js t o, machine.run u js = .ok (t, o) ∧ (∀ e ∈ js, e.isExec = false) ∧ Quiet t := by
  generalize hn : u.outstanding = n
  induction n using Nat.strong_induction_on generalizing u with
  | _ n ih =>
    by_cases hquiet : Quiet u
    · exact ⟨[], u, [], rfl, by simp, hquiet⟩
    · obtain ⟨e, u', o, hstep, he, hless⟩ := exists_step hquiet
      obtain ⟨js, t, o', hrun, hjs, ht⟩ := ih _ (hn ▸ hless) u' rfl
      exact ⟨e :: js, t, _, machine.run_cons hstep hrun, List.forall_mem_cons.mpr ⟨he, hjs⟩, ht⟩

/-- Of two calls of `exec` that have returned normally one has not had its handler called, when
nothing is outstanding. -/
theorem Budget.not_settled {out : List Output} {u : Use} (h : Budget out u) {j k : ℕ} (hne : j ≠ k)
    (hj : .returned j ∈ out) (hk : .returned k ∈ out) : ¬Settled out u := by
  intro hsettled
  have hlength : (invocations out).length ≤ 1 := by
    cases hattached : u.transfer.attached with
    | true =>
      have hle := h.attached hattached
      omega
    | false => simp [(h.unused hattached).1]
  have hj' : j ∈ invocations out :=
    List.count_pos_iff.mp (by rw [hsettled.once j hj]; exact Nat.one_pos)
  have hk' : k ∈ invocations out :=
    List.count_pos_iff.mp (by rw [hsettled.once k hk]; exact Nat.one_pos)
  rcases hcalls : invocations out with _ | ⟨i, _ | ⟨i', rest⟩⟩
  · simp [hcalls] at hj'
  · rw [hcalls, List.mem_singleton] at hj' hk'
    exact hne (hj'.trans hk'.symm)
  · simp [hcalls] at hlength

/-- A handle that was added stays so, and the calls of `exec` are numbered in order. -/
theorem Effect.attached {u u' : Use} {e : Event} {out : List Output} (h : u.Effect e u' out)
    (hattached : u.transfer.attached = true) :
    u'.transfer.attached = true ∧ u.execs ≤ u'.execs := by
  cases h with
  | reused => exact ⟨hattached, Nat.le_succ _⟩
  | added => exact ⟨rfl, Nat.le_succ _⟩
  | refused => exact ⟨hattached, Nat.le_succ _⟩
  | _ => exact ⟨hattached, le_rfl⟩

theorem attached_run {u t : Use} {is : List Event} {out : List Output}
    (hrun : machine.run u is = .ok (t, out)) (hattached : u.transfer.attached = true) :
    t.transfer.attached = true ∧ u.execs ≤ t.execs :=
  machine.run_invariant (fun _ _ t => t.transfer.attached = true ∧ u.execs ≤ t.execs)
    (fun _ _ _ _ _ _ h hstep =>
      have hnext := (step_effect hstep).attached h.1
      ⟨hnext.1, h.2.trans hnext.2⟩)
    ⟨hattached, le_rfl⟩ hrun

/-- A call of `exec` returns normally if libcurl takes the handle, or has it. -/
theorem exec_returns {u u' : Use} {added : Bool} {out : List Output}
    (h : u.step (.exec added) = .ok (u', out))
    (hadded : added = true ∨ u.transfer.attached = true) :
    u'.transfer.attached = true ∧ u'.execs = u.execs + 1 ∧ out = [.returned (u.execs + 1)] := by
  cases step_effect h with
  | reused _ hattached => exact ⟨hattached, rfl, rfl⟩
  | added => exact ⟨rfl, rfl, rfl⟩
  | refused hattached => simp [hattached] at hadded

end OnlyOnce

/-- No call of `exec` follows one that has given libcurl the handle. -/
def UsedOnce (is : List Event) : Prop :=
  is.Pairwise fun e e' => e = .exec true → e'.isExec = false

instance (is : List Event) : Decidable (UsedOnce is) := by
  unfold UsedOnce
  infer_instance

/-- The transfer before its handle is added, while its handler is stored, and from the call of the
handler on. -/
inductive Phase (out : List Output) (u : Use) : Prop where
  | unused (hattached : u.transfer.attached = false) (hdone : u.transfer.done = none)
      (hquiet : Quiet u) (hinvoked : invocations out = []) (hout : ∀ h, .returned h ∉ out)
  | waiting (h : ℕ) (hattached : u.transfer.attached = true) (hdone : u.transfer.done = some h)
      (hrunning : u.running = false) (hpending : u.messages + u.posted.length = 1)
      (hinvoked : invocations out = []) (hout : ∀ j, .returned j ∈ out → j = h)
  | handled (h : ℕ) (hattached : u.transfer.attached = true)
      (hdone : u.running = false → u.transfer.done = none) (hmessages : u.messages = 0)
      (hposted : u.posted = []) (hinvoked : invocations out = [h])
      (hout : ∀ j, .returned j ∈ out → j = h)

theorem Phase.effect {out o : List Output} {u u' : Use} {e : Event} (h : Phase out u)
    (he : e.isExec = true → u.transfer.attached = false) (heffect : u.Effect e u' o) :
    Phase (out ++ o) u' := by
  cases heffect with
  | reused _ hattached =>
    have hnot := he rfl
    rw [hattached] at hnot
    cases hnot
  | added hattached =>
    cases h with
    | unused _ _ hquiet hinvoked hout =>
      refine .waiting (u.execs + 1) rfl rfl hquiet.running ?_ (by simpa using hinvoked) ?_
      · simp [hquiet.messages, hquiet.posted]
      · intro j hj
        rcases List.mem_append.mp hj with hj | hj
        · exact absurd hj (hout j)
        · simpa using hj
    | waiting _ hyes | handled _ hyes => simp [hyes] at hattached
  | refused hattached =>
    cases h with
    | unused _ _ hquiet hinvoked hout =>
      exact .unused hattached rfl ⟨hquiet.messages, hquiet.posted, hquiet.running⟩
        (by simpa using hinvoked) (by simpa using hout)
    | waiting _ hyes | handled _ hyes => simp [hyes] at hattached
  | read | write =>
    rw [List.append_nil]
    cases h with
    | unused hattached hdone hquiet hinvoked hout =>
      exact .unused hattached hdone ⟨hquiet.messages, hquiet.posted, hquiet.running⟩ hinvoked hout
    | waiting h hattached hdone hrunning hpending hinvoked hout =>
      exact .waiting h hattached hdone hrunning hpending hinvoked hout
    | handled h hattached hdone hmessages hposted hinvoked hout =>
      exact .handled h hattached hdone hmessages hposted hinvoked hout
  | message result hpositive =>
    rw [List.append_nil]
    cases h with
    | unused _ _ hquiet =>
      rw [hquiet.messages] at hpositive
      cases hpositive
    | waiting h hattached hdone hrunning hpending hinvoked hout =>
      refine .waiting h hattached hdone hrunning ?_ hinvoked hout
      simp only [List.length_append, List.length_singleton]
      omega
    | handled _ _ _ hmessages =>
      rw [hmessages] at hpositive
      cases hpositive
  | done result posted _ hcons =>
    cases h with
    | unused _ _ hquiet =>
      rw [hquiet.posted] at hcons
      cases hcons
    | waiting h hattached hdone _ hpending hinvoked hout =>
      rw [hcons, List.length_cons] at hpending
      refine .handled h hattached nofun (by simp only; omega)
        (List.length_eq_zero_iff.mp (by simp only; omega)) ?_ ?_
      · rw [invocations_append, hinvoked, invocations_done, hdone]
        rfl
      · intro j hj
        rcases List.mem_append.mp hj with hj | hj
        · exact hout j hj
        · simp [done, hdone] at hj
    | handled _ _ _ _ hposted =>
      rw [hposted] at hcons
      cases hcons
  | reset hrunning =>
    rw [List.append_nil]
    cases h with
    | unused _ _ hquiet =>
      rw [hquiet.running] at hrunning
      cases hrunning
    | waiting _ _ _ hnot =>
      rw [hnot] at hrunning
      cases hrunning
    | handled h hattached _ hmessages hposted hinvoked hout =>
      exact .handled h hattached (fun _ => rfl) hmessages hposted hinvoked hout

theorem Phase.settled {out : List Output} {u : Use} (h : Phase out u) (hquiet : Quiet u) :
    Settled out u := by
  cases h with
  | unused _ hdone _ _ hout => exact ⟨hdone, fun j hj => absurd hj (hout j)⟩
  | waiting _ _ _ _ hpending =>
    rw [hquiet.messages, hquiet.posted] at hpending
    cases hpending
  | handled h _ hdone _ _ hinvoked hout =>
    refine ⟨hdone hquiet.running, ?_⟩
    intro j hj
    rw [hinvoked, hout j hj]
    exact List.count_singleton_self

/-- Only a call of `exec` adds the handle. -/
theorem attached_of_run {is : List Event} {u : Use} {out : List Output}
    (hrun : machine.run fresh is = .ok (u, out)) (hattached : u.transfer.attached = true) :
    .exec true ∈ is := by
  refine machine.run_invariant
    (fun is _ u => u.transfer.attached = true → .exec true ∈ is) ?_
    (by simp [fresh, Transfer.fresh]) hrun hattached
  intro is _ u e u' _ h hstep hattached
  cases step_effect hstep with
  | added => simp
  | _ => exact List.mem_append_left _ (h hattached)

theorem phase_run {is : List Event} {u : Use} {out : List Output} (honce : UsedOnce is)
    (hrun : machine.run fresh is = .ok (u, out)) : Phase out u := by
  refine machine.run_keeps (fun _ out u => Phase out u)
    (fun _ u e => e.isExec = true → u.transfer.attached = false)
    (fun _ _ _ _ _ _ h he hstep => h.effect he (step_effect hstep))
    (.unused rfl rfl ⟨rfl, rfl, rfl⟩ rfl (by simp)) ?_ List.prefix_rfl hrun
  rintro js e ⟨rest, rfl⟩ u o hu he
  by_contra hattached
  have hmem := attached_of_run hu (by simpa using hattached)
  rw [UsedOnce, List.append_assoc] at honce
  have hnot := (List.pairwise_append.mp honce).2.2 _ hmem e (by simp) rfl
  rw [he] at hnot
  cases hnot

theorem UsedOnce.append {is js ks : List Event} (h : UsedOnce is) (hjs : js <+: is)
    (hks : ∀ e ∈ ks, e.isExec = false) : UsedOnce (js ++ ks) :=
  List.pairwise_append.mpr ⟨h.sublist hjs.sublist,
    List.pairwise_iff_forall_sublist.mpr fun hpair _ => hks _ (hpair.subset (by simp)),
    fun _ _ e he _ => hks e he⟩

/-- Whatever a run is completed with but calls of `exec`: when nothing is outstanding no handler is
left, and each `exec` that has returned normally has had its handler called exactly once. This is
so if and only if `exec` is not called after it has given libcurl the handle. -/
theorem settled_iff {is : List Event} {s : Use} {out : List Output}
    (hrun : machine.run fresh is = .ok (s, out)) :
    (∀ js, js <+: is → ∀ ks, (∀ e ∈ ks, e.isExec = false) → ∀ t o,
        machine.run fresh (js ++ ks) = .ok (t, o) → Quiet t → Settled o t) ↔ UsedOnce is := by
  constructor
  · intro hall
    refine List.pairwise_iff_forall_sublist.mpr ?_
    rintro _ e hpair rfl
    by_contra hexec
    obtain ⟨added, rfl⟩ : ∃ added, e = .exec added := by
      cases e with
      | exec added => exact ⟨added, rfl⟩
      | _ => exact absurd rfl hexec
    obtain ⟨earlier, later, rfl, hfirst, hsecond⟩ := List.cons_sublist_iff.mp hpair
    obtain ⟨before, mid, rfl⟩ := List.append_of_mem hfirst
    obtain ⟨mid', after, rfl⟩ := List.append_of_mem (List.singleton_sublist.mp hsecond)
    -- both calls return normally
    obtain ⟨u₁, o₁, o₂, hearlier, hlater, rfl⟩ := machine.run_append_ok_iff.mp hrun
    obtain ⟨u₂, o₃, o₄, -, hfrom, rfl⟩ := machine.run_append_ok_iff.mp hearlier
    obtain ⟨u₃, o₅, o₆, hexec₁, hmid, rfl⟩ := machine.run_cons_ok_iff.mp hfrom
    obtain ⟨u₄, o₇, o₈, hmid', hlast, rfl⟩ := machine.run_append_ok_iff.mp hlater
    obtain ⟨u₅, o₉, o₁₀, hexec₂, -, rfl⟩ := machine.run_cons_ok_iff.mp hlast
    obtain ⟨hattached, hexecs, rfl⟩ := exec_returns hexec₁ (.inl rfl)
    obtain ⟨hstays, hlater₁⟩ := attached_run hmid hattached
    obtain ⟨hstays, hlater₂⟩ := attached_run hmid' hstays
    obtain ⟨-, -, rfl⟩ := exec_returns hexec₂ (.inr hstays)
    obtain ⟨js, t, o, hjs, hnone, hquiet⟩ := exists_quiet s
    have hwhole := machine.run_append hrun hjs
    exact (budget_run hwhole).not_settled (j := u₂.execs + 1) (k := u₄.execs + 1) (by omega)
      (by simp) (by simp) (hall _ List.prefix_rfl js hnone t _ hwhole hquiet)
  · intro honce js hjs ks hks t o ht hquiet
    exact (phase_run (honce.append hjs hks) ht).settled hquiet

/-- A transfer whose first attempt is refused, and whose handler is called after the second. -/
theorem settled_iff_retry :
    ∃ t o, machine.run fresh [.exec false, .exec true, .message 0, .done, .reset] = .ok (t, o) ∧
      Settled o t := by
  obtain ⟨t, o, hrun⟩ : ∃ t o,
      machine.run fresh [.exec false, .exec true, .message 0, .done, .reset] = .ok (t, o) :=
    ⟨_, _, rfl⟩
  refine ⟨t, o, hrun,
    (settled_iff hrun).mpr (by decide) _ List.prefix_rfl [] (by simp) t o hrun ?_⟩
  cases hrun
  exact ⟨rfl, rfl, rfl⟩

/-- A transfer that is used again when it is done. -/
theorem orphaned_handler :
    ¬∀ is t o, machine.run fresh is = .ok (t, o) → Quiet t → Settled o t := by
  intro hall
  have hsettled := hall [.exec true, .message 0, .done, .reset, .exec true] _ _ rfl
    ⟨rfl, rfl, rfl⟩
  exact absurd hsettled.done (by decide)

end Use

end NetComponents.Curl
