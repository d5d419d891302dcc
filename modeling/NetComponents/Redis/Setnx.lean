import NetComponents.Redis.Client

/-!
# Locks with `setnx`

Any number of clients call `setnx` on the keys of one server, while keys are removed
and expire. The server stores a value only if the key is absent, and says in its reply
whether it did; it may refuse a command with an error. The client looks at nothing
but whether the reply is an error, and `exec` has thrown those.
-/

namespace NetComponents

open Library

namespace Redis

section Client

variable {σ : Type} (redis : Redis σ)

/-- `!isError(exec(cmd))` -/
def notError (cmd : Command) : Callback σ Bool := fun s =>
  match redis.exec cmd s with
  | (s', .ok r) => (s', .ok !r.isError)
  | (s', .error e) => (s', .error e)

/-- `setnx(key, value)` -/
def setnx (key value : String) : Callback σ Bool := redis.notError ["SETNX", key, value]

/-- `setnx(key, value, expire)` -/
def setnxExpire (key value : String) (expire : ℤ) : Callback σ Bool :=
  redis.notError ["SET", key, value, "EX", toString expire, "NX"]

end Client

/-- The values of the keys that exist. -/
abbrev Keyspace := String → Option String

namespace Keyspace

/-- The server's answer to the commands of `setnx`, if it does not refuse the command with
an error, such as for an invalid expire time. -/
def serve (refusal : Option String) (s : Keyspace) (cmd : Command) : Keyspace × Reply :=
  match refusal with
  | some text => (s, .error text)
  | none =>
    match cmd with
    | ["SETNX", key, value] =>
      if s key = none then (Function.update s key (some value), .integer 1) else (s, .integer 0)
    | ["SET", key, value, "EX", _, "NX"] =>
      if s key = none then (Function.update s key (some value), .status "OK") else (s, .nil)
    | _ => (s, .error "ERR unknown command")

/-- Connections that do not fail. -/
def pool (refusal : Option String) : Pool Keyspace where
  get s := s
  run s cmd := ((serve refusal s cmd).1, some (serve refusal s cmd).2)

end Keyspace

/-- A call of one of the two overloads. -/
structure SetnxCall where
  client : ℕ
  key : String
  value : String
  expire : Option ℤ
  deriving DecidableEq, Repr

namespace SetnxCall

def command (call : SetnxCall) : Command :=
  match call.expire with
  | none => ["SETNX", call.key, call.value]
  | some expire => ["SET", call.key, call.value, "EX", toString expire, "NX"]

def perform {σ : Type} (call : SetnxCall) (redis : Redis σ) : Callback σ Bool :=
  match call.expire with
  | none => redis.setnx call.key call.value
  | some expire => redis.setnxExpire call.key call.value expire

theorem perform_eq {σ : Type} (call : SetnxCall) (redis : Redis σ) :
    call.perform redis = redis.notError call.command := by
  unfold perform command
  cases call.expire with
  | none => rfl
  | some expire => rfl

end SetnxCall

inductive LockEvent where
  | setnx (call : SetnxCall) (refusal : Option String)
  | removed (key : String)
  | expired (key : String)
  deriving DecidableEq, Repr

/-- What happened to a key: a call, whether the server stored its value, and what it
returned; or the key existed and is gone. -/
inductive Outcome where
  | setnx (call : SetnxCall) (stored : Bool) (result : Except Failure Bool)
  | gone (key : String)

namespace Outcome

/-- The call returned true. -/
def Acquired (key : String) : Outcome → Prop
  | setnx call _ result => call.key = key ∧ result = .ok true
  | gone _ => False

/-- The call stored its value. -/
def Stored (key : String) : Outcome → Prop
  | setnx call stored _ => call.key = key ∧ stored = true
  | gone _ => False

end Outcome

namespace Outcome

/-- The call returned true if and only if the server stored its value. -/
def Truthful : Outcome → Prop
  | setnx _ stored result => result = .ok true ↔ stored = true
  | gone _ => True

end Outcome

/-- Between two outcomes of a kind on the same key the key is gone. -/
def Exclusive (kind : String → Outcome → Prop) (log : List Outcome) : Prop :=
  ∀ earlier a between b later key, log = earlier ++ a :: (between ++ b :: later) →
    kind key a → kind key b → Outcome.gone key ∈ between

section Run

variable (lib : Redis3m) (retries : ℕ → ℕ)

def free (s : Keyspace) (key : String) : Keyspace × List Outcome :=
  if s key = none then (s, []) else (Function.update s key none, [.gone key])

/-- The clients share the server, each with its own number of retries. -/
def lockStep (s : Keyspace) : LockEvent → Except Empty (Keyspace × List Outcome)
  | .setnx call refusal =>
    let (s', result) := call.perform ⟨Keyspace.pool refusal, retries call.client, lib⟩ s
    .ok (s', [.setnx call ((s call.key).isNone && (s' call.key).isSome) result])
  | .removed key => .ok (free s key)
  | .expired key => .ok (free s key)

def lockMachine : Machine Empty Keyspace LockEvent Outcome where
  step := lockStep lib retries

/-- The server answers the call without error: by storing the value, or by leaving the
key as it is. -/
theorem Keyspace.serve_command (s : Keyspace) (call : SetnxCall) :
    ∃ r, r.isError = false ∧ Keyspace.serve none s call.command =
      (if s call.key = none then Function.update s call.key (some call.value) else s, r) := by
  unfold Keyspace.serve SetnxCall.command
  cases call.expire with
  | none =>
    by_cases hkey : s call.key = none
    · exact ⟨.integer 1, rfl, by simp [hkey]⟩
    · exact ⟨.integer 0, rfl, by simp [hkey]⟩
  | some expire =>
    by_cases hkey : s call.key = none
    · exact ⟨.status "OK", rfl, by simp [hkey]⟩
    · exact ⟨.nil, rfl, by simp [hkey]⟩

theorem SetnxCall.perform_refused (call : SetnxCall) (text : String) (n : ℕ) (s : Keyspace) :
    ∃ what, call.perform ⟨Keyspace.pool (some text), n, lib⟩ s = (s, .error (.exception what)) := by
  have hrun : (Keyspace.pool (some text)).run s call.command = (s, some (.error text)) := rfl
  obtain ⟨what, hexec⟩ := exec_refused ⟨Keyspace.pool (some text), n, lib⟩ hrun rfl
  use what
  rw [call.perform_eq]
  unfold notError
  rw [hexec]

/-- A call that is not refused returns true, whether or not the key was absent. -/
theorem SetnxCall.perform_answered (call : SetnxCall) (n : ℕ) (s : Keyspace) :
    call.perform ⟨Keyspace.pool none, n, lib⟩ s =
      (if s call.key = none then Function.update s call.key (some call.value) else s,
        .ok true) := by
  obtain ⟨r, hr, hserve⟩ := Keyspace.serve_command s call
  have hrun : (Keyspace.pool none).run s call.command =
      (if s call.key = none then Function.update s call.key (some call.value) else s,
        some r) := by
    simp [Keyspace.pool, hserve]
  have hexec := exec_answered ⟨Keyspace.pool none, n, lib⟩ hrun hr
  rw [call.perform_eq]
  unfold notError
  rw [hexec]
  simp [hr]

/-- What a step can do: free a key, or perform a call, which is refused or finds the key
absent or present. -/
inductive LockEffect (s : Keyspace) : LockEvent → Keyspace → List Outcome → Prop where
  | refused (call : SetnxCall) (text : String) (e : Failure) :
      LockEffect s (.setnx call (some text)) s [.setnx call false (.error e)]
  | stored (call : SetnxCall) (habsent : s call.key = none) :
      LockEffect s (.setnx call none) (Function.update s call.key (some call.value))
        [.setnx call true (.ok true)]
  | present (call : SetnxCall) (hpresent : s call.key ≠ none) :
      LockEffect s (.setnx call none) s [.setnx call false (.ok true)]
  | freed (e : LockEvent) (key : String) (he : e = .removed key ∨ e = .expired key) :
      LockEffect s e (free s key).1 (free s key).2

theorem lockStep_effect {s s' : Keyspace} {e : LockEvent} {out : List Outcome}
    (h : lockStep lib retries s e = .ok (s', out)) : LockEffect s e s' out := by
  cases e with
  | setnx call refusal =>
    cases refusal with
    | some text =>
      obtain ⟨what, hperform⟩ := call.perform_refused lib text (retries call.client) s
      simp only [lockStep, hperform] at h
      cases h
      have hstored : ((s call.key).isNone && (s call.key).isSome) = false := by
        cases s call.key <;> rfl
      rw [hstored]
      exact .refused call text _
    | none =>
      simp only [lockStep, call.perform_answered] at h
      cases h
      by_cases hkey : s call.key = none
      · simpa [hkey] using LockEffect.stored call hkey
      · have hsome : (s call.key).isNone = false := by
          rw [← Option.not_isSome, Option.isSome_iff_ne_none.mpr hkey]
          rfl
        simpa [hkey, hsome] using LockEffect.present call hkey
  | removed key =>
    have hfree : free s key = (s', out) := Except.ok.inj h
    have heffect : LockEffect s _ _ _ := .freed (.removed key) key (.inl rfl)
    rwa [hfree] at heffect
  | expired key =>
    have hfree : free s key = (s', out) := Except.ok.inj h
    have heffect : LockEffect s _ _ _ := .freed (.expired key) key (.inr rfl)
    rwa [hfree] at heffect

/-- A key whose value was stored exists until it is gone. -/
def Guarded (log : List Outcome) (s : Keyspace) : Prop :=
  ∀ earlier a later key, log = earlier ++ a :: later → a.Stored key →
    Outcome.gone key ∈ later ∨ s key ≠ none

theorem append_singleton_split {α : Type*} {log earlier later : List α} {o a : α}
    (h : log ++ [o] = earlier ++ a :: later) :
    (later = [] ∧ a = o ∧ log = earlier) ∨
      ∃ later', later = later' ++ [o] ∧ log = earlier ++ a :: later' := by
  rcases List.eq_nil_or_concat later with rfl | ⟨later', b, rfl⟩
  · left
    obtain ⟨hlog, hlast⟩ := List.append_inj' h rfl
    cases hlast
    exact ⟨rfl, rfl, hlog⟩
  · right
    rw [List.concat_eq_append, ← List.cons_append, ← List.append_assoc] at h
    obtain ⟨hlog, hlast⟩ := List.append_inj' h rfl
    cases hlast
    exact ⟨later', by simp, hlog⟩

/-- A step that neither stores nor frees a key. -/
theorem Guarded.call {log : List Outcome} {s s' : Keyspace} {call : SetnxCall} {stored : Bool}
    {result : Except Failure Bool} (h : Guarded log s) (hkeys : ∀ key, s key ≠ none → s' key ≠ none)
    (hstored : stored = true → s' call.key ≠ none) :
    Guarded (log ++ [.setnx call stored result]) s' := by
  intro earlier a later key hlog ha
  rcases append_singleton_split hlog with ⟨rfl, rfl, -⟩ | ⟨later', rfl, hlog'⟩
  · obtain ⟨rfl, hyes⟩ := ha
    exact .inr (hstored hyes)
  · rcases h earlier a later' key hlog' ha with hgone | hsome
    · exact .inl (by simp [hgone])
    · exact .inr (hkeys key hsome)

theorem Guarded.free {log : List Outcome} {s : Keyspace} (h : Guarded log s) (key : String) :
    Guarded (log ++ (free s key).2) (free s key).1 := by
  unfold Redis.free
  split_ifs with hkey
  · simpa using h
  · intro earlier a later key' hlog ha
    rcases append_singleton_split hlog with ⟨rfl, rfl, -⟩ | ⟨later', rfl, hlog'⟩
    · cases ha
    · by_cases hk : key' = key
      · subst hk
        exact .inl (by simp)
      · rcases h earlier a later' key' hlog' ha with hgone | hsome
        · exact .inl (by simp [hgone])
        · exact .inr (by simpa [hk] using hsome)

theorem Guarded.step {log out : List Outcome} {s s' : Keyspace} {e : LockEvent}
    (h : Guarded log s) (heffect : LockEffect s e s' out) : Guarded (log ++ out) s' := by
  cases heffect with
  | refused call text e => exact h.call (fun _ hkey => hkey) nofun
  | stored call habsent =>
    apply h.call
    · intro key hkey
      by_cases hk : key = call.key
      · simp [hk]
      · simpa [hk] using hkey
    · simp
  | present call hpresent => exact h.call (fun _ hkey => hkey) nofun
  | freed e key he => exact h.free key

/-- Only an absent key is stored. -/
theorem LockEffect.absent {s s' : Keyspace} {e : LockEvent} {out : List Outcome}
    (heffect : LockEffect s e s' out) {o : Outcome} (ho : o ∈ out) {key : String}
    (hstored : o.Stored key) : s key = none := by
  cases heffect with
  | refused call text e =>
    obtain rfl := List.mem_singleton.mp ho
    cases hstored.2
  | stored call habsent =>
    obtain rfl := List.mem_singleton.mp ho
    obtain ⟨rfl, -⟩ := hstored
    exact habsent
  | present call hpresent =>
    obtain rfl := List.mem_singleton.mp ho
    cases hstored.2
  | freed e key' he =>
    unfold free at ho
    split_ifs at ho
    · cases ho
    · obtain rfl := List.mem_singleton.mp ho
      cases hstored

theorem LockEffect.short {s s' : Keyspace} {e : LockEvent} {out : List Outcome}
    (heffect : LockEffect s e s' out) : out = [] ∨ ∃ o, out = [o] := by
  cases heffect with
  | refused call text e => exact .inr ⟨_, rfl⟩
  | stored call habsent => exact .inr ⟨_, rfl⟩
  | present call hpresent => exact .inr ⟨_, rfl⟩
  | freed e key he =>
    unfold free
    split_ifs
    · exact .inl rfl
    · exact .inr ⟨_, rfl⟩

theorem Exclusive.step {log out : List Outcome} {s s' : Keyspace} {e : LockEvent}
    (h : Exclusive Outcome.Stored log) (hguarded : Guarded log s)
    (heffect : LockEffect s e s' out) : Exclusive Outcome.Stored (log ++ out) := by
  rcases heffect.short with rfl | ⟨o, rfl⟩
  · simpa using h
  · intro earlier a between b later key hlog ha hb
    rw [← List.cons_append, ← List.append_assoc] at hlog
    rcases append_singleton_split hlog with ⟨-, rfl, hlog'⟩ | ⟨later', -, hlog'⟩
    · have habsent := heffect.absent (List.mem_singleton_self _) hb
      exact (hguarded _ _ _ _ hlog' ha).resolve_right (not_not_intro habsent)
    · exact h earlier a between b later' key (by simpa using hlog') ha hb

/-- In every run a key is gone between two calls that stored their values. -/
theorem run_exclusive {s s' : Keyspace} {events : List LockEvent} {log : List Outcome}
    (hrun : (lockMachine lib retries).run s events = .ok (s', log)) :
    Exclusive Outcome.Stored log := by
  have hboth : Guarded log s' ∧ Exclusive Outcome.Stored log := by
    apply (lockMachine lib retries).run_invariant
      (fun _ log s => Guarded log s ∧ Exclusive Outcome.Stored log) _ _ hrun
    · rintro _ log s e s' out ⟨hguarded, hexclusive⟩ hstep
      have heffect := lockStep_effect lib retries hstep
      exact ⟨hguarded.step heffect, hexclusive.step hguarded heffect⟩
    · constructor
      · intro earlier a later key hlog
        simp at hlog
      · intro earlier a between b later key hlog
        simp at hlog
  exact hboth.2

/-- No call, removal or expiration stops a run. -/
theorem run_goes_on (s : Keyspace) (events : List LockEvent) :
    ∃ s' log, (lockMachine lib retries).run s events = .ok (s', log) := by
  obtain ⟨s', log, hrun, -⟩ := (lockMachine lib retries).run_total (fun _ => True) (fun _ => True)
    (by
      intro s e _ _
      cases e with
      | setnx call refusal => exact ⟨_, _, rfl, trivial⟩
      | removed key => exact ⟨_, _, rfl, trivial⟩
      | expired key => exact ⟨_, _, rfl, trivial⟩)
    events trivial (s := s) (by simp)
  exact ⟨s', log, hrun⟩

/-- The call is refused, or it finds the key absent. -/
def FindsFree (s : Keyspace) : LockEvent → Prop
  | .setnx call refusal => refusal ≠ none ∨ s call.key = none
  | _ => True

theorem LockEffect.truthful {s s' : Keyspace} {e : LockEvent} {out : List Outcome}
    (heffect : LockEffect s e s' out) (hfree : FindsFree s e) : ∀ o ∈ out, o.Truthful := by
  cases heffect with
  | refused call text e => simp [Outcome.Truthful]
  | stored call habsent => simp [Outcome.Truthful]
  | present call hpresent => exact absurd (hfree.resolve_left (by simp)) hpresent
  | freed e key he =>
    unfold free
    split_ifs <;> simp [Outcome.Truthful]

/-- A call that finds its key present would be told that it stored its value. -/
theorem LockEffect.findsFree {s s' : Keyspace} {e : LockEvent} {out : List Outcome}
    (heffect : LockEffect s e s' out) (htruthful : ∀ o ∈ out, o.Truthful) : FindsFree s e := by
  cases heffect with
  | refused call text e => exact .inl (by simp)
  | stored call habsent => exact .inr habsent
  | present call hpresent => simp [Outcome.Truthful] at htruthful
  | freed e key he => rcases he with rfl | rfl <;> trivial

theorem Exclusive.acquired {log : List Outcome} (h : Exclusive Outcome.Stored log)
    (htruthful : ∀ o ∈ log, o.Truthful) : Exclusive Outcome.Acquired log := by
  have hstored : ∀ o ∈ log, ∀ key, o.Acquired key → o.Stored key := by
    intro o ho key hacquired
    cases o with
    | setnx call stored result => exact ⟨hacquired.1, (htruthful _ ho).mp hacquired.2⟩
    | gone key' => cases hacquired
  intro earlier a between b later key hlog ha hb
  apply h earlier a between b later key hlog
  · exact hstored a (by simp [hlog]) key ha
  · exact hstored b (by simp [hlog]) key hb

/-- In every run: calls return true exactly when they stored their values, and two calls
that return true have the key gone between them, exactly when no call that the
server answers finds the key present. -/
theorem setnx_exclusive_iff (s : Keyspace) (events : List LockEvent) :
    ∃ s' log, (lockMachine lib retries).run s events = .ok (s', log) ∧
      (((∀ o ∈ log, o.Truthful) ∧ Exclusive Outcome.Acquired log) ↔
        ∀ earlier e, earlier ++ [e] <+: events → ∀ t out,
          (lockMachine lib retries).run s earlier = .ok (t, out) → FindsFree t e) := by
  obtain ⟨s', log, hrun⟩ := run_goes_on lib retries s events
  refine ⟨s', log, hrun, ?_⟩
  constructor
  · rintro ⟨htruthful, -⟩ earlier e hinitial t out hearlier
    obtain ⟨t', out', hnext, hlog⟩ := (lockMachine lib retries).run_initial hinitial hrun
    obtain ⟨t₁, o₁, o₂, h₁, hstep, rfl⟩ := (lockMachine lib retries).run_snoc_ok_iff.mp hnext
    cases hearlier.symm.trans h₁
    apply (lockStep_effect lib retries hstep).findsFree
    intro o ho
    exact htruthful o (hlog.subset (by simp [ho]))
  · intro hfree
    have htruthful : ∀ o ∈ log, o.Truthful := by
      apply (lockMachine lib retries).run_keeps (fun _ log _ => ∀ o ∈ log, o.Truthful)
        (fun _ => FindsFree) _ _ hfree (List.prefix_refl events) hrun
      · intro _ log s e s' out hlog he hstep o ho
        rcases List.mem_append.mp ho with hold | hnew
        · exact hlog o hold
        · exact (lockStep_effect lib retries hstep).truthful he o hnew
      · simp
    exact ⟨htruthful, (run_exclusive lib retries hrun).acquired htruthful⟩

/-- Two clients call `setnx` on the same key: both calls return true. -/
theorem setnx_both_acquire :
    ∃ s', (lockMachine .looping fun _ => 50).run (fun _ => none)
      [.setnx ⟨1, "lock", "a", none⟩ none, .setnx ⟨2, "lock", "b", none⟩ none] =
        .ok (s', [.setnx ⟨1, "lock", "a", none⟩ true (.ok true),
          .setnx ⟨2, "lock", "b", none⟩ false (.ok true)]) :=
  ⟨_, rfl⟩

end Run

end Redis

end NetComponents
