import NetComponents.Scgi.Connections

/-!
# What a shutdown of the pool leaves open

The loop of `shutdown()` closes the connections that are in the map. A `getConnection` that has
tested the flag before and takes the mutex after the loop adds a connection which nobody closes,
if the pool has a place for it by then.
-/

namespace NetComponents.Scgi

namespace Connections

open Library

/-- When the loop runs, a call of `getConnection` is past its test of the flag, and the pool has a
place for it, at the latest when the callbacks that wait for the mutex have erased theirs. -/
def Late (s : Connections) : Prop :=
  0 < s.inserting ∧
    s.pool.connections.card < s.pool.maxSize + s.connections.countP Connection.freeing

instance (s : Connections) : Decidable s.Late := by
  unfold Late
  infer_instance

/-- Every connection that someone holds is closed. -/
def AllClosed (s : Connections) : Prop :=
  ∀ c ∈ s.connections, c.life = .held → c.closed = true

instance (s : Connections) : Decidable s.AllClosed := by
  unfold AllClosed
  infer_instance

/-- No call of `getConnection` adds a connection any more, and what is held is closed. -/
structure Finished (s : Connections) : Prop where
  slots : s.Slots
  flag : s.pool.fshutdown = true
  nobody : s.inserting = 0 ∨
    s.pool.maxSize + s.connections.countP Connection.freeing ≤ s.pool.connections.card
  closed : s.AllClosed

theorem card_eraseConnection {p : Pool} {id : CID} (h : id ∈ p.connections) :
    (p.eraseConnection id).2.connections.card + 1 = p.connections.card := by
  rw [Pool.eraseConnection, if_pos h]
  exact Finset.card_erase_add_one h

theorem eraseConnection_fshutdown (p : Pool) (id : CID) :
    (p.eraseConnection id).2.fshutdown = p.fshutdown := by
  rw [Pool.eraseConnection]
  split <;> rfl

theorem eraseConnection_maxSize (p : Pool) (id : CID) :
    (p.eraseConnection id).2.maxSize = p.maxSize := by
  rw [Pool.eraseConnection]
  split <;> rfl

theorem AllClosed.set {s : Connections} (h : s.AllClosed) {i : ℕ} {c : Connection} {life : Life}
    (hlife : life ≠ .held) {closed : Bool} :
    AllClosed { s with connections := s.connections.set i ⟨c.id, life, closed⟩ } := by
  intro d hd hheld
  rcases List.mem_or_eq_of_mem_set hd with hd | rfl
  · exact h d hd hheld
  · exact absurd hheld hlife

theorem countP_freeing_set {l : List Connection} {i : ℕ} {c : Connection} (hc : l[i]? = some c)
    (life : Life) :
    (l.set i ⟨c.id, life, c.closed⟩).countP Connection.freeing +
        (if c.life = .freeing then 1 else 0) =
      l.countP Connection.freeing + if life = .freeing then 1 else 0 := by
  have hcount := Machine.countP_set_add Connection.freeing hc ⟨c.id, life, c.closed⟩
  simpa [Connection.freeing] using hcount

theorem countP_freeing_close (p : Pool) (l : List Connection) :
    (l.map (close p)).countP Connection.freeing = l.countP Connection.freeing := by
  have hsame : Connection.freeing ∘ close p = Connection.freeing := by
    funext c
    simp [Connection.freeing]
  rw [List.countP_map, hsame]

theorem Finished.effect {s s' : Connections} {out : List Output} (h : s.Finished)
    (heffect : s.Effect s' out) : s'.Finished := by
  have hslots : s'.Slots := h.slots.effect heffect
  have hflag := h.flag
  cases heffect with
  | refuses | again => exact h
  | waits hopen | flags hopen => simp [hopen] at hflag
  | full => exact ⟨hslots, hflag, h.nobody.imp (fun hnone => by simp [hnone]) id, h.closed⟩
  | creates hwaiting hroom =>
    rcases h.nobody with hnobody | hfull
    · omega
    · omega
  | draws => exact ⟨hslots, hflag, h.nobody, h.closed⟩
  | @moves i c hc life hlife =>
    have hcount := countP_freeing_set hc life
    have hmoved : life ≠ .held ∧ (c.life ≠ .freeing ∧ life ≠ .freeing) := by
      rcases hlife with ⟨hlife, rfl⟩ | ⟨-, -, hopen⟩ | ⟨hlife, rfl, -⟩
      · simp [hlife]
      · simp [hopen] at hflag
      · simp [hlife]
    rw [if_neg hmoved.2.1, if_neg hmoved.2.2] at hcount
    refine ⟨hslots, hflag, ?_, h.closed.set hmoved.1⟩
    exact h.nobody.imp id fun hfull => by simp only; omega
  | @erases i c hc hlife =>
    have hmem : c.id ∈ s.pool.connections :=
      h.slots.keyed c (List.mem_of_getElem? hc) (by simp [hlife])
    have hcard := card_eraseConnection hmem
    have hcount := countP_freeing_set hc .freed
    rw [if_pos hlife, if_neg (by simp)] at hcount
    refine ⟨hslots, ?_, ?_, h.closed.set (by simp)⟩
    · exact (eraseConnection_fshutdown _ _).trans hflag
    · refine h.nobody.imp id fun hfull => ?_
      simp only [eraseConnection_maxSize]
      omega
  | closes =>
    refine ⟨hslots, hflag, ?_, ?_⟩
    · refine h.nobody.imp id fun hfull => ?_
      rw [countP_freeing_close]
      exact hfull
    · intro d hd hheld
      obtain ⟨c, hc, rfl⟩ := List.mem_map.mp hd
      have hclosed := h.closed c hc (by simpa using hheld)
      rw [close]
      split
      · rfl
      · exact hclosed

theorem flag_of_closing {maxSize : ℕ} {is : List Event} {s : Connections} {out : List Output}
    (hrun : machine.run (fresh maxSize) is = .ok (s, out)) (hclosing : s.closing = true) :
    s.pool.fshutdown = true := by
  refine machine.run_invariant
    (fun _ _ s => s.closing = true → s.pool.fshutdown = true) ?_ (by simp [fresh]) hrun hclosing
  intro _ _ s _ s' _ h hstep hclosing
  cases step_effect hstep with
  | erases => exact (eraseConnection_fshutdown _ _).trans (h hclosing)
  | flags => rfl
  | closes => cases hclosing
  | _ => exact h hclosing

/-- The loop closes whatever someone holds. -/
theorem Slots.finished {s : Connections} (h : s.Slots) (hflag : s.pool.fshutdown = true)
    (hlate : ¬s.Late) :
    Finished
      { s with
        closing := false
        connections := s.connections.map (Connections.close s.pool) } where
  slots := h.close
  flag := hflag
  nobody := by
    rw [countP_freeing_close]
    simp only [Late] at hlate ⊢
    omega
  closed := by
    intro d hd hheld
    obtain ⟨c, hc, rfl⟩ := List.mem_map.mp hd
    rw [close_life] at hheld
    rw [Connections.close, if_pos ⟨h.keyed c hc (by simp [hheld]), hheld⟩]

theorem Finished.run {s t : Connections} {js : List Event} {out : List Output} (h : s.Finished)
    (hrun : machine.run s js = .ok (t, out)) : t.Finished :=
  machine.run_invariant (fun _ _ s => s.Finished)
    (fun _ _ _ _ _ _ h hstep => h.effect (step_effect hstep)) h hrun

theorem Slots.erase_step {s : Connections} (h : s.Slots)
    (hfreeing : 0 < s.connections.countP Connection.freeing) :
    ∃ i t, machine.step s (.erase i) = .ok (t, []) ∧ t.pool.fshutdown = s.pool.fshutdown ∧
      t.pool.maxSize = s.pool.maxSize ∧ t.inserting = s.inserting ∧
      t.pool.connections.card + 1 = s.pool.connections.card ∧
      t.connections.countP Connection.freeing + 1 = s.connections.countP Connection.freeing := by
  obtain ⟨c, hc, hlife⟩ := List.countP_pos_iff.mp hfreeing
  obtain ⟨i, hi⟩ := List.mem_iff_getElem?.mp hc
  obtain ⟨id, life, closed⟩ := c
  obtain rfl : life = .freeing := by simpa [Connection.freeing] using hlife
  have hcount := countP_freeing_set hi .freed
  rw [if_pos rfl, if_neg (by simp)] at hcount
  have hmem : id ∈ s.pool.connections := h.keyed _ hc (by simp)
  refine ⟨i, { s with
    pool := (s.pool.eraseConnection id).2
    connections := s.connections.set i ⟨id, .freed, closed⟩ }, ?_, ?_⟩
  · simp only [machine, step, hi]
  · exact ⟨eraseConnection_fshutdown _ _, eraseConnection_maxSize _ _, rfl,
      card_eraseConnection hmem, hcount⟩

theorem Slots.erase_all {s : Connections} (h : s.Slots) :
    ∃ js t, machine.run s js = .ok (t, []) ∧ t.pool.fshutdown = s.pool.fshutdown ∧
      t.pool.maxSize = s.pool.maxSize ∧ t.inserting = s.inserting ∧
      t.pool.connections.card + s.connections.countP Connection.freeing =
        s.pool.connections.card := by
  generalize hn : s.connections.countP Connection.freeing = n
  induction n generalizing s with
  | zero => exact ⟨[], s, rfl, rfl, rfl, rfl, rfl⟩
  | succ n ih =>
    obtain ⟨i, u, hstep, hflag, hmax, hinserting, hcard, hcount⟩ := h.erase_step (by omega)
    obtain ⟨js, t, hrun, hflag', hmax', hinserting', hcard'⟩ :=
      ih (h.effect (step_effect hstep)) (by omega)
    exact ⟨.erase i :: js, t, machine.run_cons hstep hrun, hflag'.trans hflag,
      hmax'.trans hmax, hinserting'.trans hinserting, by omega⟩

/-- The calls that wait for the mutex take it; what was there stays. -/
theorem run_insert_all (s : Connections) :
    ∃ t out, machine.run s (List.replicate s.inserting .insert) = .ok (t, out) ∧
      t.inserting = 0 ∧ s.connections <+: t.connections := by
  generalize hn : s.inserting = n
  induction n generalizing s with
  | zero => exact ⟨s, [], rfl, hn, List.prefix_rfl⟩
  | succ n ih =>
    have hstep : machine.step s .insert = .ok s.insert := by
      simp only [machine, step]
      rw [if_neg (by omega)]
    have hfirst : s.insert.1.inserting = n ∧ s.connections <+: s.insert.1.connections := by
      rw [insert, Pool.insertConnection]
      by_cases hroom : s.pool.connections.card < s.pool.maxSize
      · rw [if_pos hroom]
        exact ⟨by simp only; omega, List.prefix_append _ _⟩
      · rw [if_neg hroom]
        exact ⟨by simp only; omega, List.prefix_rfl⟩
    obtain ⟨t, out, hrun, hdone, hprefix⟩ := ih s.insert.1 hfirst.1
    exact ⟨t, _, machine.run_cons hstep hrun, hdone, hfirst.2.trans hprefix⟩

/-- A call that waits for the mutex leaves a connection open, if there is a place for it. -/
theorem run_insert_open {s : Connections} (hwaiting : 0 < s.inserting)
    (hroom : s.pool.connections.card < s.pool.maxSize) :
    ∃ js t out, machine.run s js = .ok (t, out) ∧ t.inserting = 0 ∧ ¬t.AllClosed := by
  have hfirst : machine.step s .insert = .ok
      ({ s with
          pool := { s.pool with connections := Insert.insert (s.lastId + 1) s.pool.connections }
          lastId := s.lastId + 1
          inserting := s.inserting - 1
          connections := s.connections ++ [⟨s.lastId + 1, .held, false⟩] },
        [.returned (some (s.lastId + 1))]) := by
    simp only [machine, step, insert, Pool.insertConnection]
    rw [if_neg (by omega), if_pos hroom]
  obtain ⟨t, out, hrun, hdone, hprefix⟩ := run_insert_all _
  refine ⟨_, t, _, machine.run_cons hfirst hrun, hdone, ?_⟩
  intro hclosed
  have hmem : (⟨s.lastId + 1, .held, false⟩ : Connection) ∈ t.connections :=
    hprefix.subset (by simp)
  exact absurd (hclosed _ hmem rfl) (by simp)

/-- Whatever comes after the loop of `shutdown()`: once the calls of `getConnection` have returned,
every connection that someone holds is closed, if and only if no call was late for the loop. -/
theorem closed_iff_not_late {maxSize : ℕ} {is : List Event} {s : Connections} {out : List Output}
    (hrun : machine.run (fresh maxSize) is = .ok (s, out)) (hclosing : s.closing = true) :
    (∀ js t o, machine.run s (.closeAll :: js) = .ok (t, o) → t.inserting = 0 → t.AllClosed) ↔
      ¬s.Late := by
  have hslots : s.Slots := slots_run hrun
  have hflag : s.pool.fshutdown = true := flag_of_closing hrun hclosing
  have hloop : machine.step s .closeAll = .ok
      ({ s with closing := false, connections := s.connections.map (close s.pool) }, []) := by
    simp only [machine, step]
    rw [if_pos hclosing]
  constructor
  · rintro hall ⟨hwaiting, hroom⟩
    obtain ⟨js, t, herase, -, hmax, hinserting, hcard⟩ := hslots.close.erase_all
    rw [countP_freeing_close] at hcard
    dsimp only at hmax hinserting hcard
    obtain ⟨ks, u, o, hinsert, hdone, hopen⟩ :=
      run_insert_open (s := t) (by omega) (by omega)
    exact hopen (hall _ u _ (machine.run_cons hloop (machine.run_append herase hinsert)) hdone)
  · intro hlate js t o hafter _
    obtain ⟨u, o₁, o₂, hstep, hrest, -⟩ := machine.run_cons_ok_iff.mp hafter
    cases hloop.symm.trans hstep
    exact ((hslots.finished hflag hlate).run hrest).closed

/-- A pool of one place with nobody late: its connection is closed whatever follows. -/
theorem closed_iff_not_late_one :
    ∃ s out, machine.run (fresh 1) [.get, .insert, .shutdown] = .ok (s, out) ∧
      ∀ js t o, machine.run s (.closeAll :: js) = .ok (t, o) → t.inserting = 0 →
        t.AllClosed := by
  have hrun : machine.run (fresh 1) [.get, .insert, .shutdown] = .ok
      (⟨⟨1, {1000001}, true⟩, 1000001, 0, true, [⟨1000001, .held, false⟩]⟩,
        [.returned (some 1000001)]) := rfl
  exact ⟨_, _, hrun, (closed_iff_not_late hrun rfl).mpr (by decide)⟩

/-- The call tests the flag, the pool shuts down, and the call gets a connection. -/
theorem open_after_shutdown :
    ¬∀ maxSize is t out, machine.run (fresh maxSize) is = .ok (t, out) →
      t.pool.fshutdown = true → t.closing = false → t.inserting = 0 → t.AllClosed := by
  intro hall
  have hopen := hall 1 [.get, .shutdown, .closeAll, .insert] _ _ rfl rfl rfl rfl
  exact absurd hopen (by decide)

end Connections

end NetComponents.Scgi
