import NetComponents.Curl.Service

/-!
# Calls into libcurl

`process`, `timer`, `attach` and `detach` call functions of libcurl on the multi handle, and
libcurl makes its callbacks before such a function returns. The mutex of `Multi` is held then, so
that other threads wait, but it is recursive: a callback that calls one of the functions again is
not held up. The calls that are in progress at a time make up a stack.
-/

namespace NetComponents.Curl

open Library

/-- The functions of libcurl that a callback must not call. -/
inductive Api where
  | curl_multi_socket_action
  | curl_multi_info_read
  | curl_multi_add_handle
  | curl_multi_remove_handle
  deriving DecidableEq, Repr

/-- A call that is in progress, by where the code makes it: in `action`, for `process` or for
`timer`, in the loop of `poll`, in `attach` or in `detach`. -/
inductive Call where
  | process (s : Handle) (evbitmask : Mask)
  | timer
  | poll
  | attach (easy : ℕ)
  | detach (easy : ℕ)
  deriving DecidableEq, Repr

def Call.api : Call → Api
  | process _ _ => .curl_multi_socket_action
  | timer => .curl_multi_socket_action
  | poll => .curl_multi_info_read
  | attach _ => .curl_multi_add_handle
  | detach _ => .curl_multi_remove_handle

/-- A callback of libcurl. The handle of `socket` is that of the socket which the constructor
opens, if it does not throw. -/
inductive Callback where
  | socket (s : Option Handle)
  | options (s : Handle)
  | close (s : Handle)
  | action (s : Handle) (what : Mask) (socketp : Bool)
  | timer (timeout_ms : ℤ)
  deriving DecidableEq, Repr

def CURL_SOCKET_BAD : ℤ := -1
def CURL_SOCKOPT_OK : ℤ := 0
def CURL_SOCKOPT_ERROR : ℤ := 1

/-- `calls` are the calls in progress, the innermost first. -/
structure Multi where
  service : Service
  pingerset : Bool
  calls : List Call

namespace Multi

/-- A handler of the event loop or a user starts a call; libcurl makes a callback; or the
innermost function returns: `curl_multi_socket_action` with the number of running transfers or
with an error, `curl_multi_info_read` with the transfer of a message or without a message, the
others with success or with an error. -/
inductive Event where
  | process (s : Handle) (evbitmask : Mask)
  | timer
  | attach (easy : ℕ)
  | detach (easy : ℕ)
  | callback (c : Callback)
  | acted (running : Option ℤ)
  | read (easy : Option ℕ)
  | handled (ok : Bool)
  deriving DecidableEq, Repr

inductive Output where
  | enters (api : Api)
  | returned (value : ℤ)
  | pinger
  | cancelTimer
  | asyncWait (timeout_ms : ℤ)
  | dispatch (easy : ℕ)
  | throws
  deriving DecidableEq, Repr

/-- Events that cannot happen in a state. -/
inductive Fault where
  | busy
  | noCall
  deriving DecidableEq, Repr

def fresh : Multi := ⟨.fresh, false, []⟩

def enter (m : Multi) (c : Call) : Multi × List Output :=
  ({ m with calls := c :: m.calls }, [.enters c.api])

/-- `Service::setTimer` -/
def setTimer (m : Multi) (timeout_ms : ℤ) : Multi × List Output :=
  let out := (if m.pingerset then [] else [.pinger]) ++ [.cancelTimer]
  let m := { m with pingerset := true }
  if timeout_ms > 0 then (m, out ++ [.asyncWait timeout_ms, .returned 0])
  else if timeout_ms = 0 then
    let (m, entered) := m.enter .timer
    (m, out ++ entered)
  else (m, out ++ [.returned 0])

/-- The callbacks `socket_`, `options_`, `close_`, `action_` and `setTimer_`, with what `Service`
does in them. -/
def callback (m : Multi) : Callback → Multi × List Output
  | .socket none => (m, [.returned CURL_SOCKET_BAD])
  | .socket (some s) =>
    ({ m with service := m.service.modify s fun _ => .created }, [.returned s])
  | .options s =>
    (m, [.returned (if (m.service.sockets s).registered then CURL_SOCKOPT_OK
      else CURL_SOCKOPT_ERROR)])
  | .close s =>
    ({ m with
        service := m.service.modify s fun sock =>
          { sock with registered := false, assigned := false } },
      [.returned (if (m.service.sockets s).registered then 0 else 1)])
  | .action s what socketp => ({ m with service := m.service.action s what socketp }, [.returned 0])
  | .timer timeout_ms => m.setTimer timeout_ms

/-- `curl_multi_socket_action` returns, and `poll` comes next. -/
def acted (m : Multi) (running : Option ℤ) : Except Fault (Multi × List Output) :=
  match m.calls with
  | .process _ _ :: rest =>
    let cancel := match running with
      | some n => if n ≤ 0 then [.cancelTimer] else []
      | none => []
    .ok ({ m with calls := .poll :: rest }, cancel ++ [.enters .curl_multi_info_read])
  | .timer :: rest => .ok ({ m with calls := .poll :: rest }, [.enters .curl_multi_info_read])
  | _ => .error .noCall

/-- `curl_multi_info_read` returns. The loop of `poll` goes on as long as there is a message; a
`poll` that ends in a callback is the one of `setTimer`, which returns. -/
def read (m : Multi) (easy : Option ℕ) : Except Fault (Multi × List Output) :=
  match m.calls, easy with
  | .poll :: _, some easy => .ok (m, [.dispatch easy, .enters .curl_multi_info_read])
  | .poll :: rest, none =>
    .ok ({ m with calls := rest }, if rest = [] then [] else [.returned 0])
  | _, _ => .error .noCall

def handled (m : Multi) (ok : Bool) : Except Fault (Multi × List Output) :=
  match m.calls with
  | .attach _ :: rest | .detach _ :: rest =>
    .ok ({ m with calls := rest }, if ok then [] else [.throws])
  | _ => .error .noCall

def step (m : Multi) : Event → Except Fault (Multi × List Output)
  | .process s evbitmask =>
    if m.calls = [] then .ok (m.enter (.process s evbitmask)) else .error .busy
  | .timer => if m.calls = [] then .ok (m.enter .timer) else .error .busy
  | .attach easy => if m.calls = [] then .ok (m.enter (.attach easy)) else .error .busy
  | .detach easy => if m.calls = [] then .ok (m.enter (.detach easy)) else .error .busy
  | .callback c =>
    match m.calls with
    | [] | .poll :: _ => .error .noCall
    | _ => .ok (m.callback c)
  | .acted running => m.acted running
  | .read easy => m.read easy
  | .handled ok => m.handled ok

def machine : Machine Fault Multi Event Output where
  step := step

/-- What an event does to the calls in progress. -/
inductive Moves (calls : List Call) : Event → List Call → Prop where
  | starts {e : Event} (c : Call) (hidle : calls = []) : Moves calls e [c]
  | stays {e : Event} (he : e ≠ .callback (.timer 0)) : Moves calls e calls
  | nests (hcalls : calls ≠ []) : Moves calls (.callback (.timer 0)) (.timer :: calls)
  | polls {e : Event} {c : Call} {rest : List Call} (hcalls : calls = c :: rest)
      (he : ∀ callback, e ≠ .callback callback) : Moves calls e (.poll :: rest)
  | leaves {e : Event} {c : Call} {rest : List Call} (hcalls : calls = c :: rest)
      (he : ∀ callback, e ≠ .callback callback) : Moves calls e rest

/-- Only the timer callback without a timeout makes a call. -/
theorem callback_calls (m : Multi) (c : Callback) :
    (m.callback c).1.calls = if c = .timer 0 then .timer :: m.calls else m.calls := by
  cases c with
  | timer timeout_ms =>
    simp only [callback, setTimer, Callback.timer.injEq]
    by_cases hpos : timeout_ms > 0
    · have hzero : timeout_ms ≠ 0 := by omega
      rw [if_pos hpos, if_neg hzero]
    · rw [if_neg hpos]
      by_cases hzero : timeout_ms = 0
      · rw [if_pos hzero, if_pos hzero]
        rfl
      · rw [if_neg hzero, if_neg hzero]
  | socket s => cases s <;> rfl
  | _ => rfl

theorem callback_moves {m : Multi} (hcalls : m.calls ≠ []) (c : Callback) :
    Moves m.calls (.callback c) (m.callback c).1.calls := by
  rw [callback_calls]
  split_ifs with hzero
  · subst hzero
    exact .nests hcalls
  · exact .stays (by simpa using hzero)

theorem step_moves {m m' : Multi} {e : Event} {out : List Output} (h : m.step e = .ok (m', out)) :
    Moves m.calls e m'.calls := by
  cases e with
  | process | timer | attach | detach =>
    simp only [step] at h
    split_ifs at h with hidle
    cases h
    simp only [hidle]
    exact .starts _ rfl
  | callback c =>
    simp only [step] at h
    split at h
    · cases h
    · cases h
    · rename_i hnil _
      obtain rfl : (m.callback c).1 = m' := congrArg Prod.fst (Except.ok.inj h)
      exact callback_moves hnil c
  | acted running =>
    simp only [step, acted] at h
    split at h
    · rename_i hcalls
      cases h
      exact .polls hcalls nofun
    · rename_i hcalls
      cases h
      exact .polls hcalls nofun
    · cases h
  | read easy =>
    simp only [step, read] at h
    split at h
    · cases h
      exact .stays nofun
    · rename_i hcalls
      cases h
      exact .leaves hcalls nofun
    · cases h
  | handled ok =>
    simp only [step, handled] at h
    split at h
    · rename_i hcalls
      cases h
      exact .leaves hcalls nofun
    · rename_i hcalls
      cases h
      exact .leaves hcalls nofun
    · cases h

/-- A callback that makes no call of a function of libcurl has returned. -/
theorem callback_enters {m : Multi} {c : Callback} (h : c ≠ .timer 0) (api : Api) :
    .enters api ∉ (m.callback c).2 := by
  cases c with
  | timer timeout_ms =>
    have hzero : timeout_ms ≠ 0 := by simpa using h
    simp only [callback, setTimer, if_neg hzero]
    by_cases hpos : timeout_ms > 0
    · rw [if_pos hpos]
      split_ifs <;> simp
    · rw [if_neg hpos]
      split_ifs <;> simp
  | socket s => cases s <;> simp [callback]
  | _ => simp [callback]

/-- A function of libcurl is in progress at most once at a time. -/
def NotReentered (m : Multi) : Prop := m.calls.length ≤ 1

instance (m : Multi) : Decidable m.NotReentered := by
  unfold NotReentered
  infer_instance

theorem Moves.length_le_one {calls calls' : List Call} {e : Event} (h : Moves calls e calls')
    (he : e ≠ .callback (.timer 0)) (hle : calls.length ≤ 1) : calls'.length ≤ 1 := by
  cases h with
  | starts => exact le_rfl
  | stays => exact hle
  | nests => exact absurd rfl he
  | polls hcalls =>
    rw [hcalls] at hle
    exact hle
  | leaves hcalls =>
    rw [hcalls, List.length_cons] at hle
    omega

theorem Moves.one_lt_length {calls calls' : List Call}
    (h : Moves calls (.callback (.timer 0)) calls') (hcalls : calls ≠ []) : 1 < calls'.length := by
  cases h with
  | starts c hidle => exact absurd hidle hcalls
  | stays he => exact absurd rfl he
  | nests =>
    have hpos := List.length_pos_of_ne_nil hcalls
    rw [List.length_cons]
    omega
  | polls _ he => exact absurd rfl (he _)
  | leaves _ he => exact absurd rfl (he _)

theorem reentered_step {m m' : Multi} {out : List Output}
    (h : m.step (.callback (.timer 0)) = .ok (m', out)) : ¬m'.NotReentered := by
  have hcalls : m.calls ≠ [] := by
    intro hidle
    simp [step, hidle] at h
  have hlength := (step_moves h).one_lt_length hcalls
  unfold NotReentered
  omega

/-- libcurl is not entered again in any state of a run, and every callback returns without having
called it, if and only if no timer callback comes with a timeout of zero. -/
theorem not_reentered_iff {t : Multi} {is : List Event} {out : List Output}
    (hrun : machine.run fresh is = .ok (t, out)) :
    ((∀ js, js <+: is → ∀ u o, machine.run fresh js = .ok (u, o) → u.NotReentered) ∧
        ∀ js c, js ++ [.callback c] <+: is → ∀ u o, machine.run fresh js = .ok (u, o) →
          ∀ api, .enters api ∉ (u.callback c).2) ↔
      ∀ e ∈ is, e ≠ .callback (.timer 0) := by
  have hnested := machine.run_always_iff (fun _ _ m => m.NotReentered)
    (fun _ _ m => m.NotReentered) (fun _ _ e => e ≠ .callback (.timer 0))
    (fun _ _ _ h => h) (fun _ _ _ _ _ _ hm he hstep => (step_moves hstep).length_le_one he hm)
    (fun _ _ _ e _ _ _ he hstep => by
      obtain rfl : e = .callback (.timer 0) := not_not.mp he
      exact reentered_step hstep)
    (show fresh.NotReentered from Nat.zero_le 1) hrun
  rw [machine.run_inputs_iff (fun e => e ≠ .callback (.timer 0)) hrun] at hnested
  constructor
  · rintro ⟨hdepth, -⟩
    exact hnested.mp hdepth
  · intro hinputs
    refine ⟨hnested.mpr hinputs, ?_⟩
    intro js c hjs u o _ api
    have hc : Event.callback c ≠ .callback (.timer 0) := hinputs _ (hjs.subset (by simp))
    exact callback_enters (by simpa using hc) api

/-- The start of a transfer: the timer is to expire at once. -/
theorem not_reentered_iff_attach :
    ∃ t out, machine.run fresh [.attach 1, .callback (.timer 5), .handled true] = .ok (t, out) ∧
      ∀ js, js <+: [.attach 1, .callback (.timer 5), .handled true] →
        ∀ u o, machine.run fresh js = .ok (u, o) → u.NotReentered := by
  obtain ⟨t, out, hrun⟩ : ∃ t out,
      machine.run fresh [.attach 1, .callback (.timer 5), .handled true] = .ok (t, out) :=
    ⟨_, _, rfl⟩
  exact ⟨t, out, hrun, ((not_reentered_iff hrun).mpr (by decide)).1⟩

/-- `curl_multi_add_handle` asks for a timeout of zero. -/
theorem reentered_attach :
    ¬∀ is t out, machine.run fresh is = .ok (t, out) → t.NotReentered := by
  intro hall
  have hdepth := hall [.attach 1, .callback (.timer 0)] _ _ rfl
  exact absurd hdepth (by decide)

/-- From a callback only `timer` and its `poll` are called, so that no transfer is added to the
multi handle or removed from it. -/
def NestedInTimer (calls : List Call) : Prop := ∀ c ∈ calls.dropLast, c = .timer ∨ c = .poll

theorem NestedInTimer.moves {calls calls' : List Call} {e : Event} (hcalls : NestedInTimer calls)
    (h : Moves calls e calls') : NestedInTimer calls' := by
  cases h with
  | starts => simp [NestedInTimer]
  | stays => exact hcalls
  | nests hne =>
    intro c hc
    rw [List.dropLast_cons_of_ne_nil hne] at hc
    rcases List.mem_cons.mp hc with rfl | hc
    · exact .inl rfl
    · exact hcalls c hc
  | @polls _ c rest hcons =>
    subst hcons
    intro d hd
    cases rest with
    | nil => simp at hd
    | cons a rest =>
      rw [List.dropLast_cons_of_ne_nil (by simp)] at hd
      rcases List.mem_cons.mp hd with rfl | hd
      · exact .inr rfl
      · exact hcalls d (by simp [hd])
  | leaves hcons =>
    subst hcons
    intro d hd
    cases calls' with
    | nil => simp at hd
    | cons a rest => exact hcalls d (by simp [hd])

theorem nestedInTimer_run {t : Multi} {is : List Event} {out : List Output}
    (hrun : machine.run fresh is = .ok (t, out)) : NestedInTimer t.calls :=
  machine.run_invariant (fun _ _ m => NestedInTimer m.calls)
    (fun _ _ _ _ _ _ hm hstep => hm.moves (step_moves hstep)) (by simp [NestedInTimer, fresh])
    hrun

/-- Timeouts of zero nest without a bound. -/
theorem reentered_unbounded (n : ℕ) :
    ∃ t out, machine.run fresh (.attach 1 :: List.replicate n (.callback (.timer 0))) =
        .ok (t, out) ∧ t.calls.length = n + 1 := by
  have hnested : ∀ m : Multi, m.calls ≠ [] → m.calls.head? ≠ some .poll →
      ∃ t out, machine.run m (List.replicate n (.callback (.timer 0))) = .ok (t, out) ∧
        t.calls.length = m.calls.length + n := by
    induction n with
    | zero => exact fun m _ _ => ⟨m, [], rfl, rfl⟩
    | succ n ih =>
      intro m hcalls hhead
      have hstep : machine.step m (.callback (.timer 0)) = .ok (m.callback (.timer 0)) := by
        simp only [machine, step]
        split
        · rename_i hnil
          exact absurd hnil hcalls
        · rename_i hpoll
          simp [hpoll] at hhead
        · rfl
      have hgrown := m.callback_calls (.timer 0)
      rw [if_pos rfl] at hgrown
      obtain ⟨t, out, hrun, hlength⟩ :=
        ih (m.callback (.timer 0)).1 (by simp [hgrown]) (by simp [hgrown])
      refine ⟨t, _, machine.run_cons hstep hrun, ?_⟩
      rw [hlength, hgrown, List.length_cons]
      omega
  obtain ⟨t, out, hrun, hlength⟩ := hnested (fresh.enter (.attach 1)).1 (by simp [enter])
    (by simp [enter])
  refine ⟨t, _, machine.run_cons rfl hrun, ?_⟩
  rw [hlength]
  exact Nat.add_comm 1 n

end Multi

end NetComponents.Curl
