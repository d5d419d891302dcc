import NetComponents.Redis.Client

/-!
# Transactions

`exec` for a transaction sends `MULTI`, the commands and `EXEC`, or `DISCARD` after the
first command that is answered with an error. The server is modelled by the state of
the connection: inside `MULTI` it queues commands, outside it applies them. Which
requests it answers, and how, is up to the environment.
-/

namespace NetComponents

open Library

namespace Redis

/-- The answer to a request. An error means that the server did not do what it was asked
for; an `EXEC` that is answered with an error may nevertheless end the transaction. -/
structure Answer where
  reply : Reply
  discards : Bool

/-- What becomes of a request: it is answered; it never reaches the server; or the server
answers it and the reply is lost. -/
inductive Fate where
  | answered (a : Answer)
  | requestLost
  | replyLost (a : Answer)

inductive Applied where
  | direct (cmd : Command)
  | exec (cmds : List Command)
  deriving DecidableEq, Repr

/-- The server, as far as one client's requests are concerned: the state of the current
connection, and what was applied on it and on the connections before. -/
structure Server where
  fates : ℕ → Fate
  requests : ℕ
  inMulti : Bool
  queued : List Command
  earlier : List (List Applied)
  current : List Applied

def MULTI : Command := ["MULTI"]
def EXEC : Command := ["EXEC"]
def DISCARD : Command := ["DISCARD"]

/-- The name of a command; redis ignores its case. -/
def Command.name (cmd : Command) : List Char := (cmd.head?.getD "").toList.map Char.toUpper

/-- A command that is queued inside `MULTI`. -/
def Command.Queueable (cmd : Command) : Prop :=
  cmd.name ≠ "MULTI".toList ∧ cmd.name ≠ "EXEC".toList ∧ cmd.name ≠ "DISCARD".toList

instance (cmd : Command) : Decidable cmd.Queueable := inferInstanceAs (Decidable (_ ∧ _ ∧ _))

theorem not_queueable_multi : ¬MULTI.Queueable := by decide

theorem not_queueable_exec : ¬EXEC.Queueable := by decide

theorem not_queueable_discard : ¬DISCARD.Queueable := by decide

namespace Server

/-- Another connection, outside of any transaction. -/
def connect (s : Server) : Server :=
  { s with inMulti := false, queued := [], earlier := s.earlier ++ [s.current], current := [] }

/-- The server answers a request. -/
def process (s : Server) (cmd : Command) (a : Answer) : Server :=
  if cmd.name = "MULTI".toList then
    if s.inMulti ∨ a.reply.isError then s
    else { s with inMulti := true, queued := [] }
  else if cmd.name = "EXEC".toList then
    if s.inMulti = false then s
    else if a.reply.isArray then
      { s with inMulti := false, queued := [], current := s.current ++ [.exec s.queued] }
    else if a.reply.isError ∧ a.discards = false then s
    else { s with inMulti := false, queued := [] }
  else if cmd.name = "DISCARD".toList then
    if s.inMulti = false ∨ a.reply.isError then s
    else { s with inMulti := false, queued := [] }
  else if a.reply.isError then s
  else if s.inMulti then { s with queued := s.queued ++ [cmd] }
  else { s with current := s.current ++ [.direct cmd] }

def run (s : Server) (cmd : Command) : Server × Option Reply :=
  let s' := { s with requests := s.requests + 1 }
  match s.fates s.requests with
  | .answered a => (s'.process cmd a, some a.reply)
  | .requestLost => (s', none)
  | .replyLost a => (s'.process cmd a, none)

def pool : Pool Server where
  get := connect
  run := run

end Server

section Client

variable {σ : Type} (redis : Redis σ)

/-- The loop of the callback of `exec` for a transaction, and the `EXEC` behind it. -/
def queueCommands : List Command → Callback σ Reply
  | [], s =>
    match redis.pool.run s EXEC with
    | (s', none) => (s', .error .connectionFailure)
    | (s', some r) => (s', .ok r)
  | cmd :: tr, s =>
    match redis.pool.run s cmd with
    | (s', none) => (s', .error .connectionFailure)
    | (s', some r) =>
      if r.isError then
        match redis.pool.run s' DISCARD with
        | (s'', none) => (s'', .error .connectionFailure)
        | (s'', some _) => (s'', .ok r)
      else queueCommands tr s'

/-- The callback of `exec` for a transaction. -/
def transactionCallback (tr : List Command) : Callback σ Reply := fun s =>
  match redis.pool.run s MULTI with
  | (s', none) => (s', .error .connectionFailure)
  | (s', some _) => redis.queueCommands tr s'

/-- `Redis::exec` for a transaction -/
def execTransaction (tr : List Command) : Callback σ Reply :=
  redis.runWithConnection (redis.transactionCallback tr)

end Client

namespace Server

/-- All requests from now on are answered. -/
def Answering (s : Server) (answers : ℕ → Answer) : Prop :=
  ∀ n, s.fates n = .answered (answers n)

theorem run_answering {s : Server} {answers : ℕ → Answer} (h : s.Answering answers)
    (cmd : Command) :
    s.run cmd = (process { s with requests := s.requests + 1 } cmd (answers s.requests),
      some (answers s.requests).reply) := by
  unfold run
  rw [h]

@[simp] theorem fates_process (s : Server) (cmd : Command) (a : Answer) :
    (s.process cmd a).fates = s.fates := by
  unfold process
  split_ifs <;> rfl

theorem process_multi (s : Server) (a : Answer) :
    s.process MULTI a =
      if s.inMulti ∨ a.reply.isError then s else { s with inMulti := true, queued := [] } :=
  if_pos (by decide)

theorem process_exec (s : Server) (a : Answer) :
    s.process EXEC a =
      if s.inMulti = false then s
      else if a.reply.isArray then
        { s with inMulti := false, queued := [], current := s.current ++ [.exec s.queued] }
      else if a.reply.isError ∧ a.discards = false then s
      else { s with inMulti := false, queued := [] } := by
  unfold process
  rw [if_neg (by decide), if_pos (by decide)]

theorem process_discard (s : Server) (a : Answer) :
    s.process DISCARD a =
      if s.inMulti = false ∨ a.reply.isError then s
      else { s with inMulti := false, queued := [] } := by
  unfold process
  rw [if_neg (by decide), if_neg (by decide), if_pos (by decide)]

theorem process_queueable (s : Server) {cmd : Command} (h : cmd.Queueable) (a : Answer) :
    s.process cmd a =
      if a.reply.isError then s
      else if s.inMulti then { s with queued := s.queued ++ [cmd] }
      else { s with current := s.current ++ [.direct cmd] } := by
  unfold process
  rw [if_neg h.1, if_neg h.2.1, if_neg h.2.2]

end Server

section Atomicity

/-- The client talks to the server through the pool. -/
def client (lib : Redis3m) (retries : ℕ) : Redis Server := ⟨Server.pool, retries, lib⟩

@[simp] theorem run_client (lib : Redis3m) (retries : ℕ) (s : Server) (cmd : Command) :
    (client lib retries).pool.run s cmd = s.run cmd := rfl

variable (answers : ℕ → Answer) (lib : Redis3m) (retries : ℕ)

/-- The answers, from the `n`-th request on, that end a transaction whose `MULTI` was
accepted: either all commands are accepted, and the `EXEC` does not fail in a way that
leaves the connection inside `MULTI`; or `DISCARD` is accepted after the first
command that is not. -/
def Settles : ℕ → List Command → Prop
  | n, [] => ¬((answers n).reply.isError = true ∧ (answers n).discards = false)
  | n, _ :: tr =>
    if (answers n).reply.isError = true then (answers (n + 1)).reply.isError = false
    else Settles (n + 1) tr

/-- Nothing was applied on the connection, or all of the transaction by an `EXEC`, and the
connection is not inside `MULTI`. -/
def Server.Atomic (s : Server) (tr : List Command) : Prop :=
  s.inMulti = false ∧ (s.current = [] ∨ s.current = [.exec tr])

/-- The server after a request was answered. -/
def Server.after (s : Server) (cmd : Command) : Server :=
  Server.process { s with requests := s.requests + 1 } cmd (answers s.requests)

theorem Server.Answering.after {s : Server} (h : s.Answering answers) (cmd : Command) :
    (s.after answers cmd).Answering answers := by
  intro n
  rw [Server.after, Server.fates_process]
  exact h n

theorem queueCommands_nil {s : Server} (hanswers : s.Answering answers) :
    ((client lib retries).queueCommands [] s).1 = s.after answers EXEC := by
  unfold queueCommands
  simp only [run_client, s.run_answering hanswers]
  rfl

theorem queueCommands_refused {s : Server} (hanswers : s.Answering answers) (cmd : Command)
    (tr : List Command) (herror : (answers s.requests).reply.isError = true) :
    ((client lib retries).queueCommands (cmd :: tr) s).1 =
      (s.after answers cmd).after answers DISCARD := by
  have hrun := (s.after answers cmd).run_answering (hanswers.after answers cmd) DISCARD
  unfold queueCommands
  simp only [run_client, s.run_answering hanswers, herror, if_true]
  rw [← Server.after, hrun]
  rfl

theorem queueCommands_accepted {s : Server} (hanswers : s.Answering answers) (cmd : Command)
    (tr : List Command) (haccepted : (answers s.requests).reply.isError = false) :
    ((client lib retries).queueCommands (cmd :: tr) s).1 =
      ((client lib retries).queueCommands tr (s.after answers cmd)).1 := by
  rw [queueCommands]
  simp only [run_client, s.run_answering hanswers, haccepted]
  rfl

theorem Server.after_refused {s : Server} {cmd : Command} (hcmd : cmd.Queueable)
    (herror : (answers s.requests).reply.isError = true) :
    s.after answers cmd = { s with requests := s.requests + 1 } := by
  rw [Server.after, Server.process_queueable _ hcmd, if_pos herror]

theorem Server.after_queued {s : Server} {cmd : Command} (hcmd : cmd.Queueable)
    (haccepted : (answers s.requests).reply.isError = false) (hmulti : s.inMulti = true) :
    s.after answers cmd =
      { s with requests := s.requests + 1, queued := s.queued ++ [cmd] } := by
  rw [Server.after, Server.process_queueable _ hcmd, if_neg (by simp [haccepted]),
    if_pos hmulti]

theorem Server.after_applied {s : Server} {cmd : Command} (hcmd : cmd.Queueable)
    (haccepted : (answers s.requests).reply.isError = false) (hmulti : s.inMulti = false) :
    s.after answers cmd =
      { s with requests := s.requests + 1, current := s.current ++ [.direct cmd] } := by
  rw [Server.after, Server.process_queueable _ hcmd, if_neg (by simp [haccepted]),
    if_neg (by simp [hmulti])]

/-- Inside `MULTI`: the commands are queued, and the end of the attempt decides. -/
theorem queueCommands_inMulti {tr : List Command} (hqueued : ∀ cmd ∈ tr, cmd.Queueable)
    {s : Server} (hanswers : s.Answering answers) (hmulti : s.inMulti = true)
    (hcurrent : s.current = []) :
    ((client lib retries).queueCommands tr s).1.Atomic (s.queued ++ tr) ↔
      Settles answers s.requests tr := by
  induction tr generalizing s with
  | nil =>
    rw [queueCommands_nil answers lib retries hanswers, List.append_nil, Settles]
    unfold Server.after
    rw [Server.process_exec, if_neg (by simp [hmulti])]
    split_ifs with harray hdenied
    · have hok := Reply.isError_of_isArray harray
      simp [Server.Atomic, hcurrent, hok]
    · simp [Server.Atomic, hmulti, hdenied]
    · simp [Server.Atomic, hcurrent, hdenied]
  | cons cmd tr ih =>
    have hcmd : cmd.Queueable := hqueued cmd (by simp)
    rw [Settles]
    split_ifs with herror
    · rw [queueCommands_refused answers lib retries hanswers cmd tr herror,
        Server.after_refused answers hcmd herror, Server.after, Server.process_discard]
      cases hdiscard : (answers (s.requests + 1)).reply.isError with
      | true => simp [Server.Atomic, hmulti]
      | false => simp [Server.Atomic, hmulti, hcurrent]
    · have haccepted : (answers s.requests).reply.isError = false := by simpa using herror
      have hafter := Server.after_queued answers hcmd haccepted hmulti
      rw [queueCommands_accepted answers lib retries hanswers cmd tr haccepted]
      have hrest := ih (fun c hc => hqueued c (by simp [hc])) (hanswers.after answers cmd)
        (by simp [hafter, hmulti]) (by simp [hafter, hcurrent])
      simpa [hafter] using hrest

/-- Outside `MULTI`: the commands are applied one by one, up to the first that is refused. -/
theorem queueCommands_outside {tr : List Command} (hqueued : ∀ cmd ∈ tr, cmd.Queueable)
    {s : Server} (hanswers : s.Answering answers) (hmulti : s.inMulti = false) :
    ((client lib retries).queueCommands tr s).1.inMulti = false ∧
    ∃ cmds, ((client lib retries).queueCommands tr s).1.current =
        s.current ++ cmds.map Applied.direct ∧
      (cmds = [] ↔ tr = [] ∨ (answers s.requests).reply.isError = true) := by
  induction tr generalizing s with
  | nil =>
    rw [queueCommands_nil answers lib retries hanswers, Server.after, Server.process_exec,
      if_pos hmulti]
    exact ⟨hmulti, [], by simp⟩
  | cons cmd tr ih =>
    have hcmd : cmd.Queueable := hqueued cmd (by simp)
    by_cases herror : (answers s.requests).reply.isError = true
    · rw [queueCommands_refused answers lib retries hanswers cmd tr herror,
        Server.after_refused answers hcmd herror, Server.after, Server.process_discard,
        if_pos (.inl hmulti)]
      exact ⟨hmulti, [], by simp [herror]⟩
    · have haccepted : (answers s.requests).reply.isError = false := by simpa using herror
      have hafter := Server.after_applied answers hcmd haccepted hmulti
      rw [queueCommands_accepted answers lib retries hanswers cmd tr haccepted]
      obtain ⟨hout, cmds, hcmds, -⟩ := ih (fun c hc => hqueued c (by simp [hc]))
        (hanswers.after answers cmd) (by simp [hafter, hmulti])
      refine ⟨hout, cmd :: cmds, ?_, by simp [haccepted]⟩
      rw [hcmds, hafter]
      simp

theorem transactionCallback_eq {s : Server} (hanswers : s.Answering answers)
    (tr : List Command) :
    ((client lib retries).transactionCallback tr s).1 =
      ((client lib retries).queueCommands tr (s.after answers MULTI)).1 := by
  rw [transactionCallback]
  simp only [run_client, s.run_answering hanswers]
  rfl

/-- The server gives these answers to all requests. -/
def Server.answeredBy (s : Server) : Server := { s with fates := fun n => .answered (answers n) }

/-- One attempt at a transaction is atomic, and leaves the connection outside `MULTI`,
exactly when `MULTI` is accepted and the transaction settled, or `MULTI` is refused and
no command is accepted either. -/
theorem transaction_atomic_iff (s : Server) (tr : List Command)
    (hqueued : ∀ cmd ∈ tr, cmd.Queueable) :
    ((client lib retries).transactionCallback tr (s.answeredBy answers).connect).1.Atomic tr ↔
      if (answers s.requests).reply.isError = true then
        tr = [] ∨ (answers (s.requests + 1)).reply.isError = true
      else Settles answers (s.requests + 1) tr := by
  have hanswers : (s.answeredBy answers).connect.Answering answers := fun n => rfl
  have hrequests : (s.answeredBy answers).connect.requests = s.requests := rfl
  have hnext := hanswers.after answers MULTI
  rw [transactionCallback_eq answers lib retries hanswers]
  split_ifs with herror
  · have hmulti : (s.answeredBy answers).connect.after answers MULTI =
        { (s.answeredBy answers).connect with requests := s.requests + 1 } := by
      rw [Server.after, Server.process_multi, if_pos (.inr herror), hrequests]
    rw [hmulti] at hnext ⊢
    obtain ⟨hout, cmds, hcmds, hnone⟩ := queueCommands_outside answers lib retries hqueued hnext rfl
    rw [← hnone, Server.Atomic, hcmds]
    constructor
    · rintro ⟨-, hcurrent⟩
      cases cmds with
      | nil => rfl
      | cons cmd cmds => simp [Server.connect] at hcurrent
    · rintro rfl
      exact ⟨hout, .inl rfl⟩
  · have hmulti : (s.answeredBy answers).connect.after answers MULTI =
        { (s.answeredBy answers).connect with requests := s.requests + 1, inMulti := true } := by
      have hok : ¬((s.answeredBy answers).connect.inMulti = true ∨
          (answers s.requests).reply.isError = true) := by simp [Server.connect, herror]
      rw [Server.after, Server.process_multi, hrequests, if_neg hok]
      rfl
    rw [hmulti] at hnext ⊢
    exact queueCommands_inMulti answers lib retries hqueued hnext rfl rfl

end Atomicity

section Examples

/-- A server to which no request was made. -/
def freshServer (fates : ℕ → Fate) : Server := ⟨fates, 0, false, [], [], []⟩

/-- The requests with these numbers are answered with an error. -/
def refusing (refused : List ℕ) (n : ℕ) : Answer :=
  if n ∈ refused then ⟨.error "NOPERM", false⟩ else ⟨.array [], false⟩

theorem transaction_atomic_iff_two_commands :
    ((client .looping 50).transactionCallback [["INCR", "a"], ["INCR", "b"]]
      ((freshServer fun _ => .requestLost).answeredBy (refusing [2])).connect).1.Atomic
        [["INCR", "a"], ["INCR", "b"]] :=
  (transaction_atomic_iff (refusing [2]) .looping 50 (freshServer fun _ => .requestLost)
    [["INCR", "a"], ["INCR", "b"]] (by decide)).mpr rfl

/-- If `MULTI` and the second command are refused, the first one is applied nevertheless. If
the second command and `DISCARD` are refused, the connection stays inside `MULTI`. -/
theorem transaction_not_atomic :
    (((client .looping 50).transactionCallback [["INCR", "a"], ["INCR", "b"]]
      ((freshServer fun _ => .requestLost).answeredBy (refusing [0, 2])).connect).1.current =
        [.direct ["INCR", "a"]]) ∧
    (((client .looping 50).transactionCallback [["INCR", "a"], ["INCR", "b"]]
      ((freshServer fun _ => .requestLost).answeredBy (refusing [2, 3])).connect).1.inMulti =
        true) :=
  ⟨rfl, rfl⟩

end Examples

end Redis

end NetComponents
