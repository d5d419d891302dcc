import NetComponents.Library.Machine

/-!
# Calls to a redis server

`Redis::exec` runs a callback with a connection from a pool. The pool is given by
what its connections do to the server: a request may be answered, or the
connection fails, and then nobody knows whether the server has seen the request.
After such a failure the library `redis3m`, a parameter here, may run the callback
again, from its start, on another connection.
-/

namespace NetComponents

namespace Redis

inductive Reply where
  | string (str : String)
  | array (elements : List Reply)
  | integer (integer : ℤ)
  | nil
  | error (str : String)
  | status (str : String)

namespace Reply

def isError : Reply → Bool
  | error _ => true
  | _ => false

def isArray : Reply → Bool
  | array _ => true
  | _ => false

theorem isError_of_isArray {r : Reply} (h : r.isArray = true) : r.isError = false := by
  cases r with
  | array es => rfl
  | _ => cases h

/-- `reply::str`, empty for a reply that has no text. -/
def str : Reply → String
  | string s => s
  | error s => s
  | status s => s
  | _ => ""

/-- `reply::elements`, empty for a reply that is no array. -/
def elements : Reply → List Reply
  | array es => es
  | _ => []

/-- `std::atoll`: blanks, a sign and digits, and nothing of what follows. -/
def atoll (s : String) : ℤ :=
  let digits (cs : List Char) : ℕ :=
    (cs.takeWhile Char.isDigit).foldl (fun n c => 10 * n + (c.toNat - '0'.toNat)) 0
  match s.toList.dropWhile Char.isWhitespace with
  | '-' :: cs => -digits cs
  | '+' :: cs => digits cs
  | cs => digits cs

/-- Conversion of a 64-bit integer to `size_t`. -/
def toSize (n : ℤ) : ℕ := if 0 ≤ n then n.toNat else (n + 2 ^ 64).toNat

/-- `Redis::getInt<size_t>` -/
def getSize (r : Reply) (defValue : ℕ) : ℕ :=
  match r with
  | string s => toSize (atoll s)
  | integer n => toSize n
  | _ => defValue

end Reply

/-- The words of a command. -/
abbrev Command := List String

inductive Failure where
  | connectionFailure
  | tooMuchRetries
  | exception (what : String)
  deriving DecidableEq, Repr

/-- What the connections of a pool do to the servers' state `σ`: handing one out, and
running a command on it, which fails or returns the reply. -/
structure Pool (σ : Type) where
  get : σ → σ
  run : σ → Command → σ × Option Reply

/-- A callback that is given a connection. -/
abbrev Callback (σ α : Type) := σ → σ × Except Failure α

/-- `Cursor`, by its value. -/
abbrev Cursor := String

section Retried

variable {σ α : Type} (pool : Pool σ) (callback : Callback σ α)

/-- What a call may do that runs the callback, and after a connection failure runs it again
on another connection, up to the given number of times. -/
inductive Retried : ℕ → σ → σ × Except Failure α → Prop where
  | returned {n : ℕ} {s : σ} (h : (callback (pool.get s)).2 ≠ .error .connectionFailure) :
      Retried n s (callback (pool.get s))
  | givenUp {n : ℕ} {s : σ} (h : (callback (pool.get s)).2 = .error .connectionFailure) :
      Retried n s ((callback (pool.get s)).1, .error .tooMuchRetries)
  | again {n : ℕ} {s : σ} {result : σ × Except Failure α}
      (h : (callback (pool.get s)).2 = .error .connectionFailure)
      (rest : Retried n (callback (pool.get s)).1 result) : Retried (n + 1) s result

variable {pool callback}

/-- The first attempt is the last one if its connection does not fail. -/
theorem Retried.eq_first {n : ℕ} {s : σ} {result : σ × Except Failure α}
    (hretried : Retried pool callback n s result)
    (h : (callback (pool.get s)).2 ≠ .error .connectionFailure) :
    result = callback (pool.get s) := by
  cases hretried with
  | returned _ => rfl
  | givenUp hfail => exact absurd hfail h
  | again hfail _ => exact absurd hfail h

end Retried

end Redis

/-- What is called of the library `redis3m`, and what it is relied on for: a callback is run
again after connection failures only, up to `retries` times, and the word that a command is
given for a cursor is the cursor's value. -/
structure Redis3m where
  runWithConnection {σ α : Type} : Redis.Pool σ → Redis.Callback σ α → ℕ → Redis.Callback σ α
  retried {σ α : Type} (pool : Redis.Pool σ) (callback : Redis.Callback σ α) (retries : ℕ)
    (s : σ) : Redis.Retried pool callback retries s (runWithConnection pool callback retries s)
  word : Redis.Cursor → String
  word_eq : ∀ cursor, word cursor = cursor

namespace Redis3m

open Redis

section Looping

variable {σ α : Type} (pool : Pool σ) (callback : Callback σ α)

/-- Running a callback until its connection does not fail, or no retries are left. -/
def loop : ℕ → Callback σ α
  | 0, s =>
    match callback (pool.get s) with
    | (s', .error .connectionFailure) => (s', .error .tooMuchRetries)
    | result => result
  | retries + 1, s =>
    match callback (pool.get s) with
    | (s', .error .connectionFailure) => loop retries s'
    | result => result

theorem retried_loop (retries : ℕ) (s : σ) :
    Retried pool callback retries s (loop pool callback retries s) := by
  induction retries generalizing s with
  | zero =>
    rw [loop]
    split
    case h_1 s' hfail =>
      have hlast : Retried pool callback 0 s ((callback (pool.get s)).1, .error .tooMuchRetries) :=
        .givenUp (congrArg Prod.snd hfail)
      rwa [hfail] at hlast
    case h_2 hreturned =>
      exact .returned fun hfail => hreturned _ (Prod.ext rfl hfail)
  | succ retries ih =>
    rw [loop]
    split
    case h_1 s' hfail =>
      apply Retried.again (congrArg Prod.snd hfail)
      rw [hfail]
      exact ih s'
    case h_2 hreturned =>
      exact .returned fun hfail => hreturned _ (Prod.ext rfl hfail)

end Looping

/-- A library that makes use of all retries. -/
def looping : Redis3m where
  runWithConnection := loop
  retried := retried_loop
  word cursor := cursor
  word_eq _ := rfl

end Redis3m

structure Redis (σ : Type) where
  pool : Redis.Pool σ
  retries : ℕ
  lib : Redis3m

namespace Redis

variable {σ : Type} (redis : Redis σ)

/-- The call of `run_with_connection` in each `exec`. -/
def runWithConnection {α : Type} (callback : Callback σ α) : Callback σ α :=
  redis.lib.runWithConnection redis.pool callback redis.retries

theorem runWithConnection_eq {α : Type} {callback : Callback σ α} {s : σ}
    (h : (callback (redis.pool.get s)).2 ≠ .error .connectionFailure) :
    redis.runWithConnection callback s = callback (redis.pool.get s) :=
  (redis.lib.retried redis.pool callback redis.retries s).eq_first h

/-- The callback of `exec` for a command: an error reply is thrown. -/
def execCallback (cmd : Command) : Callback σ Reply := fun s =>
  match redis.pool.run s cmd with
  | (s', none) => (s', .error .connectionFailure)
  | (s', some r) =>
    if r.isError then
      (s', .error (.exception
        ("redis error on command '" ++ cmd.head?.getD "<NO COMMAND>" ++ "' " ++ r.str)))
    else (s', .ok r)

/-- `Redis::exec` for a command -/
def exec (cmd : Command) : Callback σ Reply :=
  redis.runWithConnection (redis.execCallback cmd)

theorem exec_answered {s s' : σ} {cmd : Command} {r : Reply}
    (h : redis.pool.run (redis.pool.get s) cmd = (s', some r)) (hr : r.isError = false) :
    redis.exec cmd s = (s', .ok r) := by
  have hcallback : redis.execCallback cmd (redis.pool.get s) = (s', .ok r) := by
    simp [execCallback, h, hr]
  unfold exec
  rw [redis.runWithConnection_eq (by simp [hcallback]), hcallback]

theorem exec_refused {s s' : σ} {cmd : Command} {r : Reply}
    (h : redis.pool.run (redis.pool.get s) cmd = (s', some r)) (hr : r.isError = true) :
    ∃ what, redis.exec cmd s = (s', .error (.exception what)) := by
  have hcallback : ∃ what, redis.execCallback cmd (redis.pool.get s) =
      (s', .error (.exception what)) := by
    simp [execCallback, h, hr]
  obtain ⟨what, hwhat⟩ := hcallback
  use what
  unfold exec
  rw [redis.runWithConnection_eq (by simp [hwhat]), hwhat]

end Redis

end NetComponents
