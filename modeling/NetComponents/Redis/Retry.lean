import NetComponents.Redis.Transaction

/-!
# Updates under retries

A command, a transaction or a pipeline is sent again from its start when the connection
fails, whether or not the server has applied it. Within one attempt no command is
applied twice; the number of attempts is what bounds the whole call.
-/

namespace NetComponents

namespace Redis

namespace Applied

def commands : Applied → List Command
  | direct cmd => [cmd]
  | exec cmds => cmds

end Applied

namespace Server

/-- The replies to the requests of a pipeline, which are all sent before the first reply is
read: the server may go on applying them after a reply was lost. -/
def getReplies : List Command → Server → Server × Option (List Reply)
  | [], s => (s, some [])
  | cmd :: cmds, s =>
    let s' := { s with requests := s.requests + 1 }
    match s.fates s.requests with
    | .answered a =>
      let (t, replies) := getReplies cmds (s'.process cmd a)
      (t, replies.map (a.reply :: ·))
    | .requestLost => (s', none)
    | .replyLost a => ((getReplies cmds (s'.process cmd a)).1, none)

/-- What was applied on each connection, up to the current one. -/
def attempts (s : Server) : List (List Applied) := s.earlier ++ [s.current]

/-- What was applied on the current connection, or may still be by an `EXEC`. -/
def pending (s : Server) : List Command := s.current.flatMap Applied.commands ++ s.queued

end Server

/-- The callback of `Pipeline::exec`: append the commands and get the replies. -/
def pipelineCallback (tr : List Command) : Callback Server (List Reply) := fun s =>
  match s.getReplies tr with
  | (s', none) => (s', .error .connectionFailure)
  | (s', some replies) => (s', .ok replies)

/-- What is passed once to an `exec`. -/
inductive Job where
  | command (cmd : Command)
  | transaction (tr : List Command)
  | pipeline (tr : List Command)

namespace Job

def batch : Job → List Command
  | command cmd => [cmd]
  | transaction tr => tr
  | pipeline tr => tr

/-- The server after the call. -/
def exec (lib : Redis3m) (retries : ℕ) : Job → Server → Server
  | command cmd, s => ((client lib retries).exec cmd s).1
  | transaction tr, s => ((client lib retries).execTransaction tr s).1
  | pipeline tr, s => ((client lib retries).runWithConnection (pipelineCallback tr) s).1

end Job

section Attempt

/-- On a connection that was sent some commands, no more than these are applied or queued. -/
structure Server.Follows (s : Server) (earlier : List (List Applied)) (sent : List Command) :
    Prop where
  earlier_eq : s.earlier = earlier
  sublist : s.pending.Sublist sent
  idle : s.inMulti = false → s.queued = []

theorem Server.follows_connect (s : Server) : s.connect.Follows s.attempts [] := by
  constructor
  · rfl
  · exact List.Sublist.refl []
  · intro _
    rfl

variable {s : Server} {earlier : List (List Applied)} {sent : List Command}

theorem Server.Follows.sent_more (h : s.Follows earlier sent) (more : List Command) :
    s.Follows earlier (sent ++ more) :=
  ⟨h.earlier_eq, h.sublist.trans (List.sublist_append_left _ _), h.idle⟩

/-- `MULTI`, `EXEC` and `DISCARD` apply at most what is queued. -/
theorem Server.Follows.control (h : s.Follows earlier sent) {cmd : Command}
    (hcontrol : ¬cmd.Queueable) (a : Answer) : (s.process cmd a).Follows earlier sent := by
  have hcurrent : (s.current.flatMap Applied.commands).Sublist sent :=
    (List.sublist_append_left _ _).trans h.sublist
  have hleft : ∀ inMulti, Server.Follows { s with inMulti := inMulti, queued := [] } earlier sent :=
    fun inMulti => ⟨h.earlier_eq, by simpa [Server.pending] using hcurrent, fun _ => rfl⟩
  have hexec : Server.Follows
      { s with inMulti := false, queued := [], current := s.current ++ [.exec s.queued] }
      earlier sent :=
    ⟨h.earlier_eq, by simpa [Server.pending, Applied.commands] using h.sublist, fun _ => rfl⟩
  unfold Server.process
  by_cases hmulti : cmd.name = "MULTI".toList
  · rw [if_pos hmulti]
    split_ifs
    · exact h
    · exact hleft true
  · rw [if_neg hmulti]
    by_cases hexecs : cmd.name = "EXEC".toList
    · rw [if_pos hexecs]
      split_ifs
      · exact h
      · exact hexec
      · exact h
      · exact hleft false
    · have hdiscard : cmd.name = "DISCARD".toList := by
        by_contra hne
        exact hcontrol ⟨hmulti, hexecs, hne⟩
      rw [if_neg hexecs, if_pos hdiscard]
      split_ifs
      · exact h
      · exact hleft false

theorem Server.Follows.process (h : s.Follows earlier sent) (cmd : Command) (a : Answer) :
    (s.process cmd a).Follows earlier (sent ++ [cmd]) := by
  by_cases hcmd : cmd.Queueable
  · rw [Server.process_queueable s hcmd]
    have hsublist : (s.pending ++ [cmd]).Sublist (sent ++ [cmd]) :=
      h.sublist.append (List.Sublist.refl _)
    split_ifs with herror hmulti
    · exact h.sent_more [cmd]
    · exact ⟨h.earlier_eq, by simpa [Server.pending] using hsublist, by simp [hmulti]⟩
    · have hidle := h.idle (by simpa using hmulti)
      refine ⟨h.earlier_eq, ?_, fun _ => hidle⟩
      simpa [Server.pending, Applied.commands, hidle] using hsublist
  · exact (h.control hcmd a).sent_more [cmd]

theorem Server.Follows.counted (h : s.Follows earlier sent) :
    Server.Follows { s with requests := s.requests + 1 } earlier sent :=
  ⟨h.earlier_eq, h.sublist, h.idle⟩

theorem Server.Follows.run (h : s.Follows earlier sent) (cmd : Command) :
    (s.run cmd).1.Follows earlier (sent ++ [cmd]) := by
  unfold Server.run
  cases s.fates s.requests with
  | answered a => exact h.counted.process cmd a
  | requestLost => exact h.counted.sent_more [cmd]
  | replyLost a => exact h.counted.process cmd a

theorem Server.Follows.run_control (h : s.Follows earlier sent) {cmd : Command}
    (hcontrol : ¬cmd.Queueable) : (s.run cmd).1.Follows earlier sent := by
  unfold Server.run
  cases s.fates s.requests with
  | answered a => exact h.counted.control hcontrol a
  | requestLost => exact h.counted
  | replyLost a => exact h.counted.control hcontrol a

theorem Server.Follows.getReplies (h : s.Follows earlier sent) (tr : List Command) :
    (s.getReplies tr).1.Follows earlier (sent ++ tr) := by
  induction tr generalizing s sent with
  | nil => exact h.sent_more []
  | cons cmd tr ih =>
    unfold Server.getReplies
    cases s.fates s.requests with
    | answered a => simpa using ih (h.counted.process cmd a)
    | requestLost => exact h.counted.sent_more (cmd :: tr)
    | replyLost a => simpa using ih (h.counted.process cmd a)

theorem Server.Follows.queueCommands (h : s.Follows earlier sent) (lib : Redis3m)
    (retries : ℕ)    (tr : List Command) :
    ((client lib retries).queueCommands tr s).1.Follows earlier (sent ++ tr) := by
  induction tr generalizing s sent with
  | nil =>
    have hexec := h.run_control not_queueable_exec
    simp only [Redis.queueCommands, run_client]
    cases hrun : s.run EXEC with
    | mk s' reply =>
      rw [hrun] at hexec
      cases reply with
      | none => exact hexec.sent_more []
      | some r => exact hexec.sent_more []
  | cons cmd tr ih =>
    have hcmd := h.run cmd
    simp only [Redis.queueCommands, run_client]
    cases hrun : s.run cmd with
    | mk s' reply =>
      rw [hrun] at hcmd
      cases reply with
      | none => simpa using hcmd.sent_more tr
      | some r =>
        cases herror : r.isError with
        | false => simpa [herror] using ih hcmd
        | true =>
          have hdiscard := hcmd.run_control not_queueable_discard
          simp only [herror, if_true]
          cases hrun' : s'.run DISCARD with
          | mk s'' reply' =>
            rw [hrun'] at hdiscard
            cases reply' with
            | none => simpa using hdiscard.sent_more tr
            | some r' => simpa using hdiscard.sent_more tr

/-- An attempt, on a new connection, applies commands of the batch only, each at most once
and in their order. -/
def Attempts {α : Type} (callback : Callback Server α) (batch : List Command) : Prop :=
  ∀ s : Server, (callback s.connect).1.Follows s.attempts batch

theorem attempts_execCallback (lib : Redis3m) (retries : ℕ) (cmd : Command) :
    Attempts ((client lib retries).execCallback cmd) [cmd] := by
  intro s
  have hcmd := s.follows_connect.run cmd
  simp only [execCallback, run_client]
  cases hrun : s.connect.run cmd with
  | mk s' reply =>
    rw [hrun] at hcmd
    cases reply with
    | none => exact hcmd
    | some r =>
      simp only
      split_ifs
      · exact hcmd
      · exact hcmd

theorem attempts_transactionCallback (lib : Redis3m) (retries : ℕ) (tr : List Command) :
    Attempts ((client lib retries).transactionCallback tr) tr := by
  intro s
  have hmulti := s.follows_connect.run_control not_queueable_multi
  simp only [transactionCallback, run_client]
  cases hrun : s.connect.run MULTI with
  | mk s' reply =>
    rw [hrun] at hmulti
    cases reply with
    | none => exact hmulti.sent_more tr
    | some r => exact hmulti.queueCommands lib retries tr

theorem attempts_pipelineCallback (tr : List Command) : Attempts (pipelineCallback tr) tr := by
  intro s
  have hreplies := s.follows_connect.getReplies tr
  unfold pipelineCallback
  cases hrun : s.connect.getReplies tr with
  | mk s' replies =>
    rw [hrun] at hreplies
    cases replies with
    | none => exact hreplies
    | some rs => exact hreplies

theorem Server.Follows.attempts_eq (h : s.Follows earlier sent) :
    s.attempts = earlier ++ [s.current] := by
  rw [Server.attempts, h.earlier_eq]

theorem Server.Follows.current_sublist (h : s.Follows earlier sent) :
    (s.current.flatMap Applied.commands).Sublist sent :=
  (List.sublist_append_left _ _).trans h.sublist

/-- What a call did in its attempts. -/
structure Call (batch : List Command) (retries : ℕ) (s s' : Server)
    (parts : List (List Applied)) : Prop where
  attempts : s'.attempts = s.attempts ++ parts
  bound : parts.length ≤ retries + 1
  once : ∀ part ∈ parts, (part.flatMap Applied.commands).Sublist batch

theorem Server.Follows.call {s' : Server} {batch : List Command}
    (h : s'.Follows s.attempts batch) (retries : ℕ) :
    Call batch retries s s' [s'.current] := by
  constructor
  · exact h.attempts_eq
  · simp
  · simpa using h.current_sublist

/-- At most one attempt more than there are retries. -/
theorem retried_call {α : Type} {callback : Callback Server α} {batch : List Command}
    (hcallback : Attempts callback batch) {retries : ℕ} {s : Server}
    {result : Server × Except Failure α}
    (hretried : Retried Server.pool callback retries s result) :
    ∃ parts, Call batch retries s result.1 parts := by
  induction hretried with
  | @returned n s _ => exact ⟨_, (hcallback s).call n⟩
  | @givenUp n s _ => exact ⟨_, (hcallback s).call n⟩
  | @again n s result _ _ ih =>
    obtain ⟨parts, hparts⟩ := ih
    use (callback s.connect).1.current :: parts
    constructor
    · rw [hparts.attempts]
      exact (congrArg (· ++ parts) (hcallback s).attempts_eq).trans (List.append_assoc _ _ _)
    · have hbound := hparts.bound
      simp only [List.length_cons]
      omega
    · intro part hpart
      rcases List.mem_cons.mp hpart with rfl | hlater
      · exact (hcallback s).current_sublist
      · exact hparts.once part hlater

theorem runWithConnection_call {α : Type} {callback : Callback Server α}
    {batch : List Command} (hcallback : Attempts callback batch) (lib : Redis3m) (retries : ℕ)
    (s : Server) :
    ∃ parts, Call batch retries s ((client lib retries).runWithConnection callback s).1 parts :=
  retried_call hcallback (lib.retried Server.pool callback retries s)

/-- If the attempts before the last one applied nothing, no command is applied twice. -/
theorem Call.once_in_all {batch : List Command} {retries : ℕ} {s s' : Server}
    {parts : List (List Applied)} (h : Call batch retries s s' parts)
    (hfailed : ∀ part ∈ parts.dropLast, part = []) :
    (parts.flatten.flatMap Applied.commands).Sublist batch := by
  rcases List.eq_nil_or_concat parts with rfl | ⟨earlier, last, rfl⟩
  · exact List.nil_sublist _
  · rw [List.concat_eq_append] at h hfailed ⊢
    rw [List.dropLast_concat] at hfailed
    have hnothing : earlier.flatten = [] := List.flatten_eq_nil_iff.mpr hfailed
    have hlast := h.once last (by simp)
    simpa [hnothing] using hlast

/-- Whatever is lost and whenever connections fail: each attempt of a call applies each
command of the batch at most once, there is at most one attempt more than there are
retries, and if no attempt before the last one applied anything, then each command is
applied at most once in all. -/
theorem exec_once_per_attempt (job : Job) (lib : Redis3m) (retries : ℕ) (s : Server) :
    ∃ parts, (job.exec lib retries s).attempts = s.attempts ++ parts ∧
      parts.length ≤ retries + 1 ∧
      (∀ part ∈ parts, (part.flatMap Applied.commands).Sublist job.batch) ∧
      ((∀ part ∈ parts.dropLast, part = []) →
        (parts.flatten.flatMap Applied.commands).Sublist job.batch) := by
  have hcall : ∃ parts, Call job.batch retries s (job.exec lib retries s) parts := by
    cases job with
    | command cmd =>
      exact runWithConnection_call (attempts_execCallback lib retries cmd) lib retries s
    | transaction tr =>
      exact runWithConnection_call (attempts_transactionCallback lib retries tr) lib retries s
    | pipeline tr => exact runWithConnection_call (attempts_pipelineCallback tr) lib retries s
  obtain ⟨parts, h⟩ := hcall
  exact ⟨parts, h.attempts, h.bound, h.once, h.once_in_all⟩

/-- The reply to the request with this number is lost; all others are answered. -/
def losing (lost n : ℕ) : Fate :=
  if n = lost then .replyLost ⟨.array [], false⟩ else .answered ⟨.array [], false⟩

/-- A push, a transaction of one push, and a pipeline of two pushes, each of which loses a
reply after the server has applied the update, and is applied again. -/
theorem exec_applies_twice :
    ((Job.command ["LPUSH", "l", "x"]).exec .looping 50 (freshServer (losing 0))).attempts =
      [[], [.direct ["LPUSH", "l", "x"]], [.direct ["LPUSH", "l", "x"]]] ∧
    ((Job.transaction [["LPUSH", "l", "x"]]).exec .looping 50 (freshServer (losing 2))).attempts =
      [[], [.exec [["LPUSH", "l", "x"]]], [.exec [["LPUSH", "l", "x"]]]] ∧
    ((Job.pipeline [["LPUSH", "l", "x"], ["LPUSH", "l", "y"]]).exec .looping 50
        (freshServer (losing 1))).attempts =
      [[], [.direct ["LPUSH", "l", "x"], .direct ["LPUSH", "l", "y"]],
        [.direct ["LPUSH", "l", "x"], .direct ["LPUSH", "l", "y"]]] :=
  ⟨rfl, rfl, rfl⟩

end Attempt

end Redis

end NetComponents
