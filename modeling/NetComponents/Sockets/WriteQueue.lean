import NetComponents.Sockets.Connection

/-!
# What the write queue guarantees

A connection is sound when the message at the front of its queue, if any, is
the one send that awaits completion. As long as no completion carries an error
and no send throws, every strand handler keeps a connection sound, whether the
transport completes its sends later or inside the call; a failure leaves a
queue that nobody serves. The results about whole runs follow: order and
exclusion, the exact condition under which the queue cannot stall, and the
exact condition under which a TCP connection keeps the byte stream.
-/

namespace NetComponents.Sockets

open Library

section Logs

variable {M : Type}

theorem peak_append (n : ℕ) (log log' : List (Action M)) :
    peak n (log ++ log') = max (peak n log) (peak (log.foldl awaitingAfter n) log') := by
  induction log generalizing n with
  | nil =>
    cases log' with
    | nil => simp [peak]
    | cons a log' => simp [peak]
  | cons a log ih => simp [peak, ih, max_assoc]

theorem sendsOf_append (log log' : List (Action M)) :
    sendsOf (log ++ log') = sendsOf log ++ sendsOf log' := List.filterMap_append

theorem completions_append (log log' : List (Action M)) :
    completions (log ++ log') = completions log ++ completions log' := List.filterMap_append

theorem posts_append (handlers handlers' : List (Handler M)) :
    posts (handlers ++ handlers') = posts handlers ++ posts handlers' := List.filterMap_append

end Logs

namespace BaseConnection

variable {M : Type}

/-- The front of the queue is what awaits completion. -/
def Sound (c : BaseConnection M) : Prop := c.awaiting = c.queue.head?.toList

/-- A queue that is not empty has a send of its front under way. -/
def Live (c : BaseConnection M) : Prop := ∀ msg, c.queue.head? = some msg → msg ∈ c.awaiting

theorem Sound.live {c : BaseConnection M} (h : c.Sound) : c.Live := by
  intro msg hmsg
  rw [h, hmsg]
  simp

/-- The effect of handlers that met no failure: they leave a sound connection,
pass messages to `send` and complete them in the order they were waiting, and
never have two sends under way. -/
structure Serves (unsent unfinished : List M) (n : ℕ) (c : BaseConnection M)
    (log : List (Action M)) : Prop where
  quiet : ∀ a ∈ log, ¬ a.Failure
  sound : c.Sound
  sent : sendsOf log ++ c.queue.tail = unsent
  finished : (completions log).map Prod.fst ++ c.queue = unfinished
  exclusive : peak n log ≤ 1
  balance : log.foldl awaitingAfter n = c.awaiting.length

/-- The effect of a failure: messages are left that no send is under way for. -/
structure Stalls (c : BaseConnection M) (log : List (Action M)) : Prop where
  failure : ∃ a ∈ log, a.Failure
  waiting : c.queue ≠ []
  idle : c.awaiting = []

theorem Stalls.not_live {c : BaseConnection M} {log : List (Action M)} (h : Stalls c log) :
    ¬ c.Live := by
  intro hlive
  obtain ⟨msg, rest, hq⟩ := List.exists_cons_of_ne_nil h.waiting
  have := hlive msg (by simp [hq])
  simp [h.idle] at this

theorem Stalls.prepend {c : BaseConnection M} {log : List (Action M)} (h : Stalls c log)
    (first : List (Action M)) : Stalls c (first ++ log) := by
  obtain ⟨a, ha, hfail⟩ := h.failure
  exact ⟨⟨a, List.mem_append_right _ ha, hfail⟩, h.waiting, h.idle⟩

theorem Serves.mem_unfinished {unsent unfinished : List M} {n : ℕ} {c : BaseConnection M}
    {log : List (Action M)} (h : Serves unsent unfinished n c log) {msg : M}
    (hmsg : msg ∈ c.queue) : msg ∈ unfinished := by
  rw [← h.finished]
  exact List.mem_append_right _ hmsg

theorem Serves.prepend {unsent unfinished : List M} {n : ℕ} {c : BaseConnection M}
    {log : List (Action M)} (first : List (Action M))
    (hquiet : ∀ a ∈ first, ¬ a.Failure) (hpeak : peak n first ≤ 1)
    (h : Serves unsent unfinished (first.foldl awaitingAfter n) c log) :
    Serves (sendsOf first ++ unsent) ((completions first).map Prod.fst ++ unfinished) n c
      (first ++ log) where
  quiet := by
    intro a ha
    rcases List.mem_append.mp ha with ha | ha
    · exact hquiet a ha
    · exact h.quiet a ha
  sound := h.sound
  sent := by rw [sendsOf_append, List.append_assoc, h.sent]
  finished := by rw [completions_append, List.map_append, List.append_assoc, h.finished]
  exclusive := by
    rw [peak_append]
    exact max_le hpeak h.exclusive
  balance := by rw [List.foldl_append, h.balance]

variable (transport : Transport M)

/-- `write()` on a queue that nothing is under way for. The induction is on the
queue: a send that completes inside the call goes on with the next message. -/
theorem write_effect (q : List M) (hq : q ≠ []) (sends : ℕ) :
    ∃ c log, write transport ⟨q, [], sends⟩ = .ok (c, log) ∧
      (Serves q q 0 c log ∨ Stalls c log ∧ ∃ k, ∃ msg ∈ q, transport k msg = .threw) := by
  induction q generalizing sends with
  | nil => exact absurd rfl hq
  | cons msg rest ih =>
    cases hsend : transport sends msg with
    | started =>
      refine ⟨⟨msg :: rest, [msg], sends + 1⟩, [.send msg], by simp [write, hsend], .inl ?_⟩
      exact ⟨by simp [Action.Failure], rfl, rfl, rfl, le_rfl, rfl⟩
    | threw =>
      refine ⟨⟨msg :: rest, [], sends + 1⟩, [.send msg, .threw msg], by simp [write, hsend],
        .inr ⟨?_, sends, msg, by simp, hsend⟩⟩
      exact ⟨⟨.threw msg, by simp, trivial⟩, by simp, rfl⟩
    | completed nwritten =>
      by_cases hrest : rest = []
      · subst hrest
        refine ⟨⟨[], [], sends + 1⟩, [.send msg, .handler msg false nwritten, .pop],
          by simp [write, handler, hsend, Except.map], .inl ?_⟩
        exact ⟨by simp [Action.Failure], rfl, rfl, rfl, le_rfl, rfl⟩
      · obtain ⟨c, log, hwrite, heffect⟩ := ih hrest (sends + 1)
        have hquiet : ∀ a ∈ ([.send msg, .handler msg false nwritten, .pop] : List (Action M)),
            ¬ a.Failure := by simp [Action.Failure]
        refine ⟨c, [.send msg, .handler msg false nwritten, .pop] ++ log,
          by simp [write, handler, hsend, hrest, hwrite, Except.map], ?_⟩
        rcases heffect with hserves | ⟨hstalls, k, m, hm, hthrew⟩
        · exact .inl (Serves.prepend _ hquiet le_rfl hserves)
        · exact .inr ⟨hstalls.prepend _, k, m, List.mem_cons_of_mem _ hm, hthrew⟩

/-- The completion handler of the front of the queue. -/
theorem handler_effect (msg : M) (rest : List M) (sends : ℕ) (error : Bool) (nwritten : ℕ) :
    ∃ c log, handler transport ⟨msg :: rest, [], sends⟩ msg error nwritten = .ok (c, log) ∧
      (Serves rest (msg :: rest) 1 c log ∨
        Stalls c log ∧ (error = true ∨ ∃ k, ∃ m ∈ rest, transport k m = .threw)) := by
  cases error with
  | true =>
    refine ⟨⟨msg :: rest, [], sends⟩, [.handler msg true nwritten], by simp [handler], .inr ?_⟩
    exact ⟨⟨⟨.handler msg true nwritten, by simp, rfl⟩, by simp, rfl⟩, .inl rfl⟩
  | false =>
    by_cases hrest : rest = []
    · subst hrest
      refine ⟨⟨[], [], sends⟩, [.handler msg false nwritten, .pop], by simp [handler], .inl ?_⟩
      exact ⟨by simp [Action.Failure], rfl, rfl, rfl, le_rfl, rfl⟩
    · obtain ⟨c, log, hwrite, heffect⟩ := write_effect transport rest hrest sends
      have hquiet : ∀ a ∈ ([.handler msg false nwritten, .pop] : List (Action M)),
          ¬ a.Failure := by simp [Action.Failure]
      refine ⟨c, [.handler msg false nwritten, .pop] ++ log,
        by simp [handler, hrest, hwrite, Except.map], ?_⟩
      rcases heffect with hserves | ⟨hstalls, hthrew⟩
      · exact .inl (Serves.prepend _ hquiet le_rfl hserves)
      · exact .inr ⟨hstalls.prepend _, .inr hthrew⟩

/-- One strand handler on a sound connection. The only handler that cannot run
is a completion without a send it could belong to. -/
theorem step_effect {c : BaseConnection M} (hc : c.Sound) (e : Handler M) :
    (∃ c' log, step transport c e = .ok (c', log) ∧
      (Serves (c.queue.tail ++ posts [e]) (c.queue ++ posts [e]) c.awaiting.length c' log ∨
        Stalls c' log ∧ ((∃ n, e = .completed true n) ∨
          ∃ k, ∃ msg ∈ c.queue ++ posts [e], transport k msg = .threw))) ∨
    (step transport c e = .error .notStarted ∧ c.queue = []) := by
  obtain ⟨q, awaiting, sends⟩ := c
  obtain rfl : awaiting = q.head?.toList := hc
  cases e with
  | posted msg =>
    refine .inl ?_
    cases q with
    | nil =>
      obtain ⟨c', log, hwrite, heffect⟩ := write_effect transport [msg] (by simp) sends
      refine ⟨c', [.push msg] ++ log, by simp [step, hwrite, Except.map], ?_⟩
      have hquiet : ∀ a ∈ ([.push msg] : List (Action M)), ¬ a.Failure := by
        simp [Action.Failure]
      rcases heffect with hserves | ⟨hstalls, k, m, hm, hthrew⟩
      · exact .inl (Serves.prepend _ hquiet (by simp [peak, awaitingAfter]) hserves)
      · exact .inr ⟨hstalls.prepend _, .inr ⟨k, m, hm, hthrew⟩⟩
    | cons first rest =>
      refine ⟨⟨first :: rest ++ [msg], [first], sends⟩, [.push msg], by simp [step], .inl ?_⟩
      exact ⟨by simp [Action.Failure], rfl, by simp [sendsOf, posts], by simp [completions, posts],
        le_rfl, rfl⟩
  | completed error nwritten =>
    cases q with
    | nil => exact .inr ⟨by simp [step], rfl⟩
    | cons first rest =>
      obtain ⟨c', log, hhandler, heffect⟩ :=
        handler_effect transport first rest sends error nwritten
      refine .inl ⟨c', log, by simpa [step] using hhandler, ?_⟩
      rcases heffect with hserves | ⟨hstalls, rfl | ⟨k, m, hm, hthrew⟩⟩
      · exact .inl (by simpa [posts] using hserves)
      · exact .inr ⟨hstalls, .inl ⟨nwritten, rfl⟩⟩
      · exact .inr ⟨hstalls, .inr ⟨k, m, by simp [hm], hthrew⟩⟩

/-- What a run without failures has done so far goes on with what a step does. -/
theorem Serves.append {handlers handlers' : List (Handler M)} {c c' : BaseConnection M}
    {log log' : List (Action M)} (h : Serves (posts handlers) (posts handlers) 0 c log)
    (h' : Serves (c.queue.tail ++ posts handlers') (c.queue ++ posts handlers')
      c.awaiting.length c' log') :
    Serves (posts (handlers ++ handlers')) (posts (handlers ++ handlers')) 0 c' (log ++ log') := by
  rw [← h.balance] at h'
  have hall := Serves.prepend log h.quiet h.exclusive h'
  rw [posts_append]
  simpa only [← List.append_assoc, h.sent, h.finished] using hall

theorem serves_fresh : Serves ([] : List M) [] 0 fresh [] :=
  ⟨by simp, rfl, rfl, rfl, by simp [peak], rfl⟩

theorem mem_completions_of_handler {c c' : BaseConnection M} {log : List (Action M)} {msg : M}
    {nwritten : ℕ} (h : handler transport c msg false nwritten = .ok (c', log)) :
    (msg, nwritten) ∈ completions log := by
  obtain ⟨q, awaiting, sends⟩ := c
  cases q with
  | nil => simp [handler] at h
  | cons first rest =>
    by_cases hrest : rest = []
    · subst hrest
      obtain ⟨-, rfl⟩ : _ ∧ [.handler msg false nwritten, .pop] = log := by simpa [handler] using h
      simp [completions]
    · cases hwrite : write transport ⟨rest, awaiting, sends⟩ with
      | error e => simp [handler, hrest, hwrite, Except.map] at h
      | ok r =>
        obtain ⟨-, rfl⟩ : _ ∧ .handler msg false nwritten :: .pop :: r.2 = log := by
          simpa [handler, hrest, hwrite, Except.map] using h
        simp [completions]

/-- A run on which nothing fails serves the messages in order. -/
theorem run_serves {transport : Transport M} {handlers : List (Handler M)}
    (hthrow : ∀ k, ∀ msg ∈ posts handlers, transport k msg ≠ .threw)
    (herror : ∀ n, Handler.completed true n ∉ handlers) :
    (∃ c log, (machine transport).run fresh handlers = .ok (c, log) ∧
      Serves (posts handlers) (posts handlers) 0 c log) ∨
    (machine transport).run fresh handlers = .error .notStarted := by
  have hposted : ∀ e ∈ handlers, ∀ k, ∀ msg ∈ posts [e], transport k msg ≠ .threw := by
    intro e he k msg hmsg
    apply hthrow k msg
    exact List.filterMap_subset _ (List.cons_subset.mpr ⟨he, List.nil_subset _⟩) hmsg
  have houtcome := (machine transport).run_outcome
    (fun is out c => Serves (posts is) (posts is) 0 c out ∧
      ∀ k, ∀ msg ∈ posts is, transport k msg ≠ .threw)
    (fun e => e ∈ handlers) (fun e => e = .notStarted)
    (by
      rintro is out c e ⟨hserves, hearlier⟩ he
      rcases step_effect transport hserves.sound e with ⟨c', log, hstep, heffect⟩ | ⟨hstep, -⟩
      · rcases heffect with hserves' | ⟨-, ⟨n, rfl⟩ | ⟨k, msg, hmsg, hthrew⟩⟩
        · refine .inl ⟨c', log, hstep, hserves.append hserves', ?_⟩
          intro k msg hmsg
          rw [posts_append] at hmsg
          rcases List.mem_append.mp hmsg with hmsg | hmsg
          · exact hearlier k msg hmsg
          · exact hposted e he k msg hmsg
        · exact absurd he (herror n)
        · rcases List.mem_append.mp hmsg with hmsg | hmsg
          · exact absurd hthrew (hearlier k msg (hserves.mem_unfinished hmsg))
          · exact absurd hthrew (hposted e he k msg hmsg)
      · exact .inr ⟨_, hstep, rfl⟩)
    (s := fresh) ⟨serves_fresh, by simp [posts]⟩ (fun e he => he)
  rcases houtcome with ⟨c, log, hrun, hserves, -⟩ | ⟨e, hrun, rfl⟩
  · exact .inl ⟨c, log, hrun, hserves⟩
  · exact .inr hrun

/-- A sound connection with an empty queue has nothing left to serve. -/
theorem Sound.served {c : BaseConnection M} (hc : c.Sound) (hq : c.queue = []) :
    Serves c.queue.tail c.queue c.awaiting.length c [] := by
  have ha : c.awaiting = [] := by rw [hc, hq]; rfl
  exact ⟨by simp, hc, by simp [hq, sendsOf], by simp [hq, completions], by simp [ha, peak], rfl⟩

/-- Successful completions, one after the other, empty a sound queue. -/
theorem drains {transport : Transport M} {c : BaseConnection M} (hc : c.Sound)
    (hthrow : ∀ k, ∀ msg ∈ c.queue, transport k msg ≠ .threw) (reports : List ℕ)
    (henough : c.queue.length ≤ reports.length) :
    ∃ used, used <+: reports ∧ ∃ c' log,
      (machine transport).run c (used.map (Handler.completed false)) = .ok (c', log) ∧
      c'.queue = [] ∧ Serves c.queue.tail c.queue c.awaiting.length c' log := by
  induction reports generalizing c with
  | nil =>
    have hq : c.queue = [] := by simpa using henough
    exact ⟨[], List.prefix_rfl, c, [], rfl, hq, hc.served hq⟩
  | cons n reports ih =>
    cases hq : c.queue with
    | nil => exact ⟨[], by simp, c, [], rfl, hq, by simpa only [hq] using hc.served hq⟩
    | cons first rest =>
      rcases step_effect transport hc (.completed false n) with ⟨c₁, log, hstep, heffect⟩ | ⟨-, h⟩
      · rcases heffect with hserves | ⟨-, ⟨m, hm⟩ | ⟨k, msg, hmsg, hthrew⟩⟩
        · have hone : 0 < (completions log).length := by
            have ha : c.awaiting = [first] := by rw [hc, hq]; rfl
            simp only [step, ha] at hstep
            exact List.length_pos_of_mem (mem_completions_of_handler transport hstep)
          have hshorter : c₁.queue.length ≤ reports.length := by
            have := congrArg List.length hserves.finished
            simp [posts] at this henough
            omega
          have hlater : ∀ k, ∀ msg ∈ c₁.queue, transport k msg ≠ .threw := by
            intro k msg hmsg
            apply hthrow k msg
            simpa [posts] using hserves.mem_unfinished hmsg
          obtain ⟨used, hused, c', log', hrun, hempty, hserves'⟩ :=
            ih hserves.sound hlater hshorter
          refine ⟨n :: used, by simpa using hused, c', log ++ log',
            (machine transport).run_cons hstep hrun, hempty, ?_⟩
          rw [← hserves.balance] at hserves'
          have hall := Serves.prepend log hserves.quiet hserves.exclusive hserves'
          rw [hserves.sent, hserves.finished] at hall
          simpa [posts, hq] using hall
        · cases hm
        · exact absurd hthrew (hthrow k msg (by simpa [posts] using hmsg))
      · simp [hq] at h

/-- As long as no completion carries an error and no send of a posted message
throws, an empty queue is never read or popped, every message is passed to `send`
once and in the order of the posts, and no two sends await completion together.
What is still queued behind the front is what has not been sent, and successful
completions send it. -/
theorem sends_each_once (transport : Transport M) (handlers : List (Handler M))
    (hthrow : ∀ k, ∀ msg ∈ posts handlers, transport k msg ≠ .threw)
    (herror : ∀ n, Handler.completed true n ∉ handlers) :
    (machine transport).run fresh handlers ≠ .error .frontOfEmpty ∧
    (machine transport).run fresh handlers ≠ .error .popOfEmpty ∧
    ∀ c log, (machine transport).run fresh handlers = .ok (c, log) →
      sendsOf log ++ c.queue.tail = posts handlers ∧
      (c.awaiting = [] → sendsOf log = posts handlers) ∧
      peak 0 log ≤ 1 ∧
      ∀ reports : List ℕ, c.queue.length ≤ reports.length →
        ∃ used, used <+: reports ∧ ∃ c' log',
          (machine transport).run c (used.map (Handler.completed false)) = .ok (c', log') ∧
          sendsOf (log ++ log') = posts handlers ∧ peak 0 (log ++ log') ≤ 1 := by
  rcases run_serves hthrow herror with ⟨c, log, hrun, hserves⟩ | hrun
  · rw [hrun]
    refine ⟨nofun, nofun, ?_⟩
    intro c' log' h
    cases h
    refine ⟨hserves.sent, ?_, hserves.exclusive, ?_⟩
    · intro hidle
      have hempty : c.queue.head? = none := by
        have hhead := hserves.sound
        rw [Sound, hidle] at hhead
        cases hq : c.queue with
        | nil => rfl
        | cons first rest => simp [hq] at hhead
      have hq : c.queue = [] := List.head?_eq_none_iff.mp hempty
      simpa [hq] using hserves.sent
    · intro reports henough
      obtain ⟨used, hused, c', log', hdrain, hempty, hserves'⟩ :=
        drains hserves.sound
          (fun k msg hmsg => hthrow k msg (hserves.mem_unfinished hmsg)) reports henough
      rw [← hserves.balance] at hserves'
      have hall := Serves.prepend log hserves.quiet hserves.exclusive hserves'
      refine ⟨used, hused, c', log', hdrain, ?_, hall.exclusive⟩
      have hsent := hall.sent
      rw [hserves.sent, hempty] at hsent
      simpa using hsent
  · rw [hrun]
    exact ⟨nofun, nofun, nofun⟩

/-- Two posts on a TCP connection with a completion between the sends, and on a
web connection, which completes inside the sends. -/
theorem sends_each_once_two_posts :
    (∃ c log, (machine tcpSend).run fresh [.posted (Message.ofData [1] 0),
        .posted (Message.ofData [2] 0), .completed false 1] = .ok (c, log) ∧
      sendsOf log = [Message.ofData [1] 0, Message.ofData [2] 0]) ∧
    (∃ c log, (machine webSend).run fresh [.posted (Message.ofData [1] 0),
        .posted (Message.ofData [2] 0)] = .ok (c, log) ∧
      sendsOf log = [Message.ofData [1] 0, Message.ofData [2] 0]) := by
  constructor
  · have hrun : (machine tcpSend).run fresh [.posted (Message.ofData [1] 0),
        .posted (Message.ofData [2] 0), .completed false 1] =
        .ok (⟨[Message.ofData [2] 0], [Message.ofData [2] 0], 2⟩,
          [.push (Message.ofData [1] 0), .send (Message.ofData [1] 0),
            .push (Message.ofData [2] 0), .handler (Message.ofData [1] 0) false 1, .pop,
            .send (Message.ofData [2] 0)]) := by
      simp [machine, Machine.run, fresh, step, write, handler, tcpSend, Except.map]
    refine ⟨_, _, hrun, ?_⟩
    have h := (sends_each_once tcpSend _ (by simp [tcpSend]) (by simp)).2.2 _ _ hrun
    simpa [posts] using h.1
  · have hrun : (machine webSend).run fresh [.posted (Message.ofData [1] 0),
        .posted (Message.ofData [2] 0)] =
        .ok (⟨[], [], 2⟩,
          [.push (Message.ofData [1] 0), .send (Message.ofData [1] 0),
            .handler (Message.ofData [1] 0) false 1, .pop, .push (Message.ofData [2] 0),
            .send (Message.ofData [2] 0), .handler (Message.ofData [2] 0) false 1, .pop]) := by
      simp [machine, Machine.run, fresh, step, write, handler, webSend, Message.ofData, Except.map]
    refine ⟨_, _, hrun, ?_⟩
    have h := (sends_each_once webSend _ (by simp [webSend]) (by simp)).2.2 _ _ hrun
    simpa [posts] using h.1

/-- What a run has done: it served every message, or something failed and left
a queue that no send is under way for. -/
theorem run_serves_or_fails {transport : Transport M} {handlers : List (Handler M)}
    {c : BaseConnection M} {log : List (Action M)}
    (hrun : (machine transport).run fresh handlers = .ok (c, log)) :
    Serves (posts handlers) (posts handlers) 0 c log ∨
    (∃ a ∈ log, a.Failure) ∧ ∃ earlier, earlier <+: handlers ∧ ∃ c' log',
      (machine transport).run fresh earlier = .ok (c', log') ∧ ¬ c'.Live := by
  have h := (machine transport).run_invariant
    (fun is out c => (machine transport).run fresh is = .ok (c, out) ∧
      (Serves (posts is) (posts is) 0 c out ∨
        (∃ a ∈ out, a.Failure) ∧ ∃ js, js <+: is ∧ ∃ c' log',
          (machine transport).run fresh js = .ok (c', log') ∧ ¬ c'.Live))
    (by
      rintro is out c e c' log' ⟨hrun, h⟩ hstep
      have hrun' : (machine transport).run fresh (is ++ [e]) = .ok (c', out ++ log') :=
        (machine transport).run_snoc hrun hstep
      refine ⟨hrun', ?_⟩
      rcases h with hserves | ⟨⟨a, ha, hfail⟩, js, hjs, hbad⟩
      · rcases step_effect transport hserves.sound e with ⟨c₁, log₁, h₁, heffect⟩ | ⟨h₁, -⟩
        · obtain ⟨rfl, rfl⟩ : c₁ = c' ∧ log₁ = log' := by
            simpa using h₁.symm.trans hstep
          rcases heffect with hserves' | ⟨hstalls, -⟩
          · exact .inl (hserves.append hserves')
          · have hstalls' := hstalls.prepend out
            exact .inr ⟨hstalls'.failure, is ++ [e], List.prefix_rfl, c₁, out ++ log₁, hrun',
              hstalls.not_live⟩
        · cases h₁.symm.trans hstep
      · exact .inr ⟨⟨a, List.mem_append_left _ ha, hfail⟩, js, hjs.trans (List.prefix_append _ _),
          hbad⟩)
    ⟨rfl, .inl serves_fresh⟩ hrun
  exact h.2

/-- The queue stays live over a run exactly when no completion of the run carries
an error and none of its sends throws. -/
theorem live_iff_no_failure (transport : Transport M) (handlers : List (Handler M))
    (c : BaseConnection M) (log : List (Action M))
    (hrun : (machine transport).run fresh handlers = .ok (c, log)) :
    (∀ earlier, earlier <+: handlers → ∀ c' log',
      (machine transport).run fresh earlier = .ok (c', log') → c'.Live) ↔
    ∀ a ∈ log, ¬ a.Failure := by
  constructor
  · intro hlive
    rcases run_serves_or_fails hrun with hserves | ⟨-, js, hjs, c', log', hrun', hbad⟩
    · exact hserves.quiet
    · exact absurd (hlive js hjs c' log' hrun') hbad
  · intro hquiet js hjs c' log' hrun'
    rcases run_serves_or_fails hrun' with hserves | ⟨⟨a, ha, hfail⟩, -⟩
    · exact hserves.sound.live
    · obtain ⟨u, o, hu, ho⟩ := (machine transport).run_initial hjs hrun
      obtain ⟨rfl, rfl⟩ : u = c' ∧ o = log' := by simpa using hu.symm.trans hrun'
      exact absurd hfail (hquiet a (ho.subset ha))

/-- Posts and completions in turn, on a transport that completes later. -/
theorem live_iff_no_failure_mixed :
    let handlers : List (Handler ℕ) :=
      [.posted 1, .posted 2, .completed false 1, .posted 3, .completed false 2]
    let log : List (Action ℕ) := [.push 1, .send 1, .push 2, .handler 1 false 1, .pop, .send 2,
      .push 3, .handler 2 false 2, .pop, .send 3]
    (machine (fun _ _ => .started)).run fresh handlers = .ok (⟨[3], [3], 3⟩, log) ∧
    ∀ earlier, earlier <+: handlers → ∀ c' log',
      (machine (fun _ _ => .started)).run fresh earlier = .ok (c', log') → c'.Live := by
  intro handlers log
  have hrun : (machine (fun _ _ => .started)).run fresh handlers = .ok (⟨[3], [3], 3⟩, log) := by
    simp [handlers, log, machine, Machine.run, fresh, step, write, handler, Except.map]
  refine ⟨hrun, (live_iff_no_failure _ _ _ _ hrun).mpr ?_⟩
  simp [log, Action.Failure]

/-- A transient error on a UDP socket: the message posted after it is queued
behind the failed one and never sent. -/
theorem udp_error_stalls :
    ∃ c log, (machine (udpSend (fun _ => some ()))).run fresh
        [.posted (Message.ofData [1] 0), .completed true 0, .posted (Message.ofData [2] 0)] =
          .ok (c, log) ∧
      ¬ c.Live ∧ c.queue.length = 2 ∧ sendsOf log = [Message.ofData [1] 0] := by
  refine ⟨⟨[Message.ofData [1] 0, Message.ofData [2] 0], [], 1⟩,
    [.push (Message.ofData [1] 0), .send (Message.ofData [1] 0),
      .handler (Message.ofData [1] 0) true 0, .push (Message.ofData [2] 0)],
    ?_, by simp [Live], rfl, rfl⟩
  simp [machine, Machine.run, fresh, step, write, handler, udpSend, Message.ofData, Except.map]

end BaseConnection

section ByteStream

open BaseConnection

/-- The bytes a stream socket accepted: of each completed send as many of the
first bytes of its buffers as the completion reports. -/
def accepted (log : List (Action Message)) : Bytes :=
  (completions log).flatMap fun done => done.1.bytes.take done.2

/-- A TCP connection keeps the byte stream exactly when every completion reports
the whole message: the completion handler pops the message without looking at
the number of bytes that were sent. -/
theorem tcp_keeps_stream_iff (handlers : List (Handler Message))
    (c : BaseConnection Message) (log : List (Action Message))
    (hrun : (machine tcpSend).run fresh handlers = .ok (c, log))
    (hsuccess : ∀ n, Handler.completed true n ∉ handlers)
    (hcontract : ∀ done ∈ completions log, done.2 ≤ done.1.dataSize)
    (hempty : c.queue = []) :
    accepted log = (posts handlers).flatMap Message.bytes ↔
      ∀ done ∈ completions log, done.2 = done.1.dataSize := by
  have hthrow : ∀ k, ∀ msg ∈ posts handlers, tcpSend k msg ≠ .threw := by simp [tcpSend]
  rcases run_serves hthrow hsuccess with ⟨c', log', hrun', hserves⟩ | hfault
  · obtain ⟨rfl, rfl⟩ : c = c' ∧ log = log' := by simpa using hrun.symm.trans hrun'
    have hposts : (completions log).map Prod.fst = posts handlers := by
      simpa [hempty] using hserves.finished
    have hshort : ∀ done ∈ completions log,
        (done.1.bytes.take done.2).length ≤ done.1.bytes.length := by simp
    rw [accepted, ← hposts, List.flatMap_map, flatMap_eq_flatMap_iff hshort]
    apply forall₂_congr
    intro done hdone
    have hle := hcontract done hdone
    rw [← Message.length_bytes] at hle ⊢
    rw [List.take_eq_self_iff]
    omega
  · cases hrun.symm.trans hfault

/-- One message of two bytes that a single completion reports in full. -/
theorem tcp_keeps_stream_iff_one_message :
    accepted [.push (Message.ofData [1, 2] 0), .send (Message.ofData [1, 2] 0),
        .handler (Message.ofData [1, 2] 0) false 2, .pop] =
      (posts [.posted (Message.ofData [1, 2] 0), .completed false 2]).flatMap Message.bytes := by
  have hrun : (machine tcpSend).run fresh
      [.posted (Message.ofData [1, 2] 0), .completed false 2] =
        .ok (⟨[], [], 1⟩, [.push (Message.ofData [1, 2] 0), .send (Message.ofData [1, 2] 0),
          .handler (Message.ofData [1, 2] 0) false 2, .pop]) := by
    simp [machine, Machine.run, fresh, step, write, handler, tcpSend, Except.map]
  exact (tcp_keeps_stream_iff _ _ _ hrun (by simp) (by simp [completions, Message.dataSize,
    Message.ofData]) rfl).mpr (by simp [completions, Message.dataSize, Message.ofData])

/-- A message of two bytes of which the socket takes one: the queue is empty and
the second byte is gone. -/
theorem tcp_partial_send_loses_bytes :
    ∃ c log, (machine tcpSend).run fresh
        [.posted (Message.ofData [1, 2] 0), .completed false 1] = .ok (c, log) ∧
      c.queue = [] ∧ c.awaiting = [] ∧ accepted log = [1] ∧
      (posts [.posted (Message.ofData [1, 2] 0), .completed false 1]).flatMap Message.bytes =
        [1, 2] := by
  refine ⟨⟨[], [], 1⟩, [.push (Message.ofData [1, 2] 0), .send (Message.ofData [1, 2] 0),
    .handler (Message.ofData [1, 2] 0) false 1, .pop], ?_, rfl, rfl, by decide, by decide⟩
  simp [machine, Machine.run, fresh, step, write, handler, tcpSend, Except.map]

end ByteStream

end NetComponents.Sockets
