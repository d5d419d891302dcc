import NetComponents.Library.Machine
import NetComponents.Scgi.Pool

/-!
# The connections of an SCGI pool

A connection keeps its place in the pool until the callback of its destructor has taken its entry
out, which is some time after the last reference to it has gone. `getConnection`, `freeConnection`
and `shutdown` touch the flag before they take the mutex; other threads come between the two, so
that each of them is two events here.
-/

namespace NetComponents.Scgi

open Library

/-- Where a connection is: someone has a reference to it; its destructor has begun; the callback
has found the pool open and waits for the mutex; the callback has returned. -/
inductive Life where
  | held
  | destroying
  | freeing
  | freed
  deriving DecidableEq, Repr

/-- A `scgi::Connection` that `getConnection` has returned, and whether `close()` was called. -/
structure Connection where
  id : CID
  life : Life
  closed : Bool
  deriving DecidableEq, Repr

namespace Connection

def unfreed (c : Connection) : Bool := c.life ≠ .freed

def freeing (c : Connection) : Bool := c.life = .freeing

end Connection

/-- A pool and its connections, in the order of their creation. `lastId` is what `create_id()`
gave last (its 64 bits do not wrap within the life of a process), `inserting` counts the calls of
`getConnection` that have found the flag unset, and `closing` is the `shutdown()` that has set it
and not yet run its loop. -/
structure Connections where
  pool : Pool
  lastId : CID
  inserting : ℕ
  closing : Bool
  connections : List Connection
  deriving DecidableEq

namespace Connections

/-- `get` and `insert` are the two parts of `getConnection`, `test` and `erase` those of the
callback, `shutdown` and `closeAll` those of `shutdown()`. Connections outside the pool draw ids
as well, and `drop` is the end of the last reference. -/
inductive Event where
  | get
  | insert
  | draw
  | drop (i : ℕ)
  | test (i : ℕ)
  | erase (i : ℕ)
  | shutdown
  | closeAll
  deriving DecidableEq, Repr

/-- What a call of `getConnection` returns. -/
inductive Output where
  | returned (id : Option CID)
  deriving DecidableEq, Repr

/-- An event that cannot happen. -/
inductive Fault where
  | disabled
  deriving DecidableEq, Repr

def insert (s : Connections) : Connections × List Output :=
  match s.pool.insertConnection (s.lastId + 1) with
  | (none, pool) => ({ s with pool := pool, inserting := s.inserting - 1 }, [.returned none])
  | (some id, pool) =>
    ({ s with
        pool := pool
        lastId := s.lastId + 1
        inserting := s.inserting - 1
        connections := s.connections ++ [⟨id, .held, false⟩] }, [.returned (some id)])

/-- The body of the loop of `shutdown()`: the reference in the map gives a connection as long as
someone holds it. -/
def close (p : Pool) (c : Connection) : Connection :=
  if c.id ∈ p.connections ∧ c.life = .held then { c with closed := true } else c

def step (s : Connections) : Event → Except Fault (Connections × List Output)
  | .get =>
    if s.pool.fshutdown then .ok (s, [.returned none])
    else .ok ({ s with inserting := s.inserting + 1 }, [])
  | .insert => if s.inserting = 0 then .error .disabled else .ok s.insert
  | .draw => .ok ({ s with lastId := s.lastId + 1 }, [])
  | .drop i =>
    match s.connections[i]? with
    | some ⟨id, .held, closed⟩ =>
      .ok ({ s with connections := s.connections.set i ⟨id, .destroying, closed⟩ }, [])
    | _ => .error .disabled
  | .test i =>
    match s.connections[i]? with
    | some ⟨id, .destroying, closed⟩ =>
      let life := if s.pool.fshutdown then .freed else .freeing
      .ok ({ s with connections := s.connections.set i ⟨id, life, closed⟩ }, [])
    | _ => .error .disabled
  | .erase i =>
    match s.connections[i]? with
    | some ⟨id, .freeing, closed⟩ =>
      .ok ({ s with
              pool := (s.pool.eraseConnection id).2
              connections := s.connections.set i ⟨id, .freed, closed⟩ }, [])
    | _ => .error .disabled
  | .shutdown =>
    if s.pool.fshutdown then .ok (s, [])
    else .ok ({ s with pool := { s.pool with fshutdown := true }, closing := true }, [])
  | .closeAll =>
    if s.closing then
      .ok ({ s with closing := false, connections := s.connections.map (close s.pool) }, [])
    else .error .disabled

def machine : Machine Fault Connections Event Output where
  step := step

/-- The first id that `create_id()` gives is one more than a million. -/
def fresh (maxSize : ℕ) : Connections := ⟨.fresh maxSize, 1000000, 0, false, []⟩

/-- What an event does. -/
inductive Effect (s : Connections) : Connections → List Output → Prop where
  | refuses (hflag : s.pool.fshutdown = true) : Effect s s [.returned none]
  | waits (hopen : s.pool.fshutdown = false) :
      Effect s { s with inserting := s.inserting + 1 } []
  | full (hwaiting : 0 < s.inserting) (hfull : s.pool.maxSize ≤ s.pool.connections.card) :
      Effect s { s with inserting := s.inserting - 1 } [.returned none]
  | creates (hwaiting : 0 < s.inserting) (hroom : s.pool.connections.card < s.pool.maxSize) :
      Effect s
        { s with
          pool := { s.pool with connections := Insert.insert (s.lastId + 1) s.pool.connections }
          lastId := s.lastId + 1
          inserting := s.inserting - 1
          connections := s.connections ++ [⟨s.lastId + 1, .held, false⟩] }
        [.returned (some (s.lastId + 1))]
  | draws : Effect s { s with lastId := s.lastId + 1 } []
  | moves {i : ℕ} {c : Connection} (hc : s.connections[i]? = some c) (life : Life)
      (hlife : c.life = .held ∧ life = .destroying ∨
        c.life = .destroying ∧ life = .freeing ∧ s.pool.fshutdown = false ∨
        c.life = .destroying ∧ life = .freed ∧ s.pool.fshutdown = true) :
      Effect s { s with connections := s.connections.set i ⟨c.id, life, c.closed⟩ } []
  | erases {i : ℕ} {c : Connection} (hc : s.connections[i]? = some c) (hlife : c.life = .freeing) :
      Effect s
        { s with
          pool := (s.pool.eraseConnection c.id).2
          connections := s.connections.set i ⟨c.id, .freed, c.closed⟩ } []
  | flags (hopen : s.pool.fshutdown = false) :
      Effect s { s with pool := { s.pool with fshutdown := true }, closing := true } []
  | again (hflag : s.pool.fshutdown = true) : Effect s s []
  | closes (hclosing : s.closing = true) :
      Effect s { s with closing := false, connections := s.connections.map (close s.pool) } []

theorem insert_effect {s : Connections} (hwaiting : 0 < s.inserting) :
    s.Effect s.insert.1 s.insert.2 := by
  rw [insert, Pool.insertConnection]
  by_cases hroom : s.pool.connections.card < s.pool.maxSize
  · rw [if_pos hroom]
    exact .creates hwaiting hroom
  · rw [if_neg hroom]
    exact .full hwaiting (by omega)

theorem step_effect {s s' : Connections} {e : Event} {out : List Output}
    (h : machine.step s e = .ok (s', out)) : s.Effect s' out := by
  change s.step e = .ok (s', out) at h
  cases e with
  | get =>
    rw [step] at h
    split at h
    · rename_i hflag
      cases h
      exact .refuses hflag
    · rename_i hflag
      cases h
      exact .waits (by simpa using hflag)
  | insert =>
    rw [step] at h
    split at h
    · cases h
    · rename_i hwaiting
      have heffect : s.Effect s.insert.1 s.insert.2 := insert_effect (by omega)
      rw [Except.ok.inj h] at heffect
      exact heffect
  | draw =>
    cases h
    exact .draws
  | drop i =>
    simp only [step] at h
    split at h
    · rename_i id closed hc
      cases h
      exact .moves hc .destroying (.inl ⟨rfl, rfl⟩)
    · cases h
  | test i =>
    simp only [step] at h
    split at h
    · rename_i id closed hc
      cases h
      cases hflag : s.pool.fshutdown with
      | true => exact .moves hc .freed (.inr (.inr ⟨rfl, rfl, hflag⟩))
      | false => exact .moves hc .freeing (.inr (.inl ⟨rfl, rfl, hflag⟩))
    · cases h
  | erase i =>
    simp only [step] at h
    split at h
    · rename_i id closed hc
      cases h
      exact .erases hc rfl
    · cases h
  | shutdown =>
    rw [step] at h
    split at h
    · rename_i hflag
      cases h
      exact .again hflag
    · rename_i hflag
      cases h
      exact .flags (by simpa using hflag)
  | closeAll =>
    rw [step] at h
    split at h
    · rename_i hclosing
      cases h
      exact .closes hclosing
    · cases h

theorem map_id_set {l : List Connection} {i : ℕ} {c : Connection} (hc : l[i]? = some c)
    (life : Life) : (l.set i ⟨c.id, life, c.closed⟩).map Connection.id = l.map Connection.id := by
  obtain ⟨hi, rfl⟩ := List.getElem?_eq_some_iff.mp hc
  rw [List.map_set, ← List.getElem_map Connection.id (h := by simpa using hi)]
  exact List.set_getElem_self _

theorem getElem?_set_of_some {l : List Connection} {i : ℕ} {c : Connection} (hc : l[i]? = some c)
    (d : Connection) : (l.set i d)[i]? = some d :=
  List.getElem?_set_self (List.getElem?_eq_some_iff.mp hc).1

@[simp] theorem close_id (p : Pool) (c : Connection) : (close p c).id = c.id := by
  rw [close]
  split <;> rfl

@[simp] theorem close_life (p : Pool) (c : Connection) : (close p c).life = c.life := by
  rw [close]
  split <;> rfl

/-- Every connection has an id of its own, and its place in the pool until it is freed; every
place is that of a connection. -/
structure Slots (s : Connections) : Prop where
  nodup : (s.connections.map Connection.id).Nodup
  drawn : ∀ c ∈ s.connections, c.id ≤ s.lastId
  keyed : ∀ c ∈ s.connections, c.life ≠ .freed → c.id ∈ s.pool.connections
  owned : ∀ id ∈ s.pool.connections,
    ∃ c ∈ s.connections, c.id = id ∧ (s.pool.fshutdown = false → c.life ≠ .freed)
  bounded : s.pool.connections.card ≤ s.pool.maxSize

theorem slots_fresh (maxSize : ℕ) : (fresh maxSize).Slots := by
  constructor <;> simp [fresh, Pool.fresh]

section

variable {s : Connections} (h : s.Slots)
include h

theorem Slots.ne_next {c : Connection} (hc : c ∈ s.connections) : c.id ≠ s.lastId + 1 :=
  (Nat.lt_succ_of_le (h.drawn c hc)).ne

theorem Slots.next_not_mem : s.lastId + 1 ∉ s.pool.connections := by
  intro hmem
  obtain ⟨c, hc, hid, -⟩ := h.owned _ hmem
  exact h.ne_next hc hid

theorem Slots.set {i : ℕ} {c : Connection} (hc : s.connections[i]? = some c) (life : Life)
    (hlive : c.life ≠ .freed) (hopen : s.pool.fshutdown = false → life ≠ .freed) :
    Slots { s with connections := s.connections.set i ⟨c.id, life, c.closed⟩ } where
  nodup := by
    rw [map_id_set hc]
    exact h.nodup
  drawn := by
    intro d hd
    rcases List.mem_or_eq_of_mem_set hd with hd | rfl
    · exact h.drawn d hd
    · exact h.drawn c (List.mem_of_getElem? hc)
  keyed := by
    intro d hd hdlife
    rcases List.mem_or_eq_of_mem_set hd with hd | rfl
    · exact h.keyed d hd hdlife
    · exact h.keyed c (List.mem_of_getElem? hc) hlive
  owned := by
    intro id hid
    obtain ⟨d, hd, rfl, hdlife⟩ := h.owned id hid
    obtain ⟨j, hj⟩ := List.mem_iff_getElem?.mp hd
    by_cases hij : i = j
    · subst hij
      obtain rfl : c = d := Option.some.inj (hc.symm.trans hj)
      exact ⟨_, List.mem_of_getElem? (getElem?_set_of_some hc _), rfl, hopen⟩
    · refine ⟨d, List.mem_of_getElem? (i := j) ?_, rfl, hdlife⟩
      rw [List.getElem?_set_ne hij, hj]
  bounded := h.bounded

theorem Slots.create (hroom : s.pool.connections.card < s.pool.maxSize) :
    Slots
      { s with
        pool := { s.pool with connections := Insert.insert (s.lastId + 1) s.pool.connections }
        lastId := s.lastId + 1
        inserting := s.inserting - 1
        connections := s.connections ++ [⟨s.lastId + 1, .held, false⟩] } where
  nodup := by
    rw [List.map_append, List.nodup_append]
    refine ⟨h.nodup, by simp, ?_⟩
    intro id hid id' hid'
    obtain ⟨c, hc, rfl⟩ := List.mem_map.mp hid
    obtain rfl := List.mem_singleton.mp hid'
    exact h.ne_next hc
  drawn := by
    intro c hc
    rcases List.mem_append.mp hc with hc | hc
    · exact (h.drawn c hc).trans (Nat.le_succ _)
    · obtain rfl := List.mem_singleton.mp hc
      exact le_rfl
  keyed := by
    intro c hc hlife
    rcases List.mem_append.mp hc with hc | hc
    · exact Finset.mem_insert_of_mem (h.keyed c hc hlife)
    · obtain rfl := List.mem_singleton.mp hc
      exact Finset.mem_insert_self _ _
  owned := by
    intro id hid
    rcases Finset.mem_insert.mp hid with rfl | hid
    · exact ⟨_, List.mem_append_right _ (List.mem_singleton_self _), rfl, fun _ => by simp⟩
    · obtain ⟨c, hc, hcid, hlife⟩ := h.owned id hid
      exact ⟨c, List.mem_append_left _ hc, hcid, hlife⟩
  bounded := by
    rw [Finset.card_insert_of_notMem h.next_not_mem]
    exact hroom

theorem Slots.erase {i : ℕ} {c : Connection} (hc : s.connections[i]? = some c)
    (hlive : c.life ≠ .freed) :
    Slots
      { s with
        pool := (s.pool.eraseConnection c.id).2
        connections := s.connections.set i ⟨c.id, .freed, c.closed⟩ } := by
  have hmem : c ∈ s.connections := List.mem_of_getElem? hc
  rw [Pool.eraseConnection, if_pos (h.keyed c hmem hlive)]
  have hnodup : ((s.connections.set i ⟨c.id, .freed, c.closed⟩).map Connection.id).Nodup := by
    rw [map_id_set hc]
    exact h.nodup
  have hself := List.mem_of_getElem? (getElem?_set_of_some hc ⟨c.id, .freed, c.closed⟩)
  constructor
  case nodup => exact hnodup
  case drawn =>
    intro d hd
    rcases List.mem_or_eq_of_mem_set hd with hd | rfl
    · exact h.drawn d hd
    · exact h.drawn c hmem
  case keyed =>
    intro d hd hdlife
    refine Finset.mem_erase.mpr ⟨?_, ?_⟩
    · -- the only connection with the id of the freed one is the freed one itself
      intro hid
      exact hdlife (congrArg Connection.life (List.inj_on_of_nodup_map hnodup hd hself hid))
    · rcases List.mem_or_eq_of_mem_set hd with hd | rfl
      · exact h.keyed d hd hdlife
      · exact absurd rfl hdlife
  case owned =>
    intro id hid
    obtain ⟨hne, hid⟩ := Finset.mem_erase.mp hid
    obtain ⟨d, hd, rfl, hdlife⟩ := h.owned id hid
    obtain ⟨j, hj⟩ := List.mem_iff_getElem?.mp hd
    have hij : i ≠ j := by
      rintro rfl
      exact hne (congrArg Connection.id (Option.some.inj (hj.symm.trans hc)))
    refine ⟨d, List.mem_of_getElem? (i := j) ?_, rfl, hdlife⟩
    rw [List.getElem?_set_ne hij, hj]
  case bounded => exact Finset.card_erase_le.trans h.bounded

theorem Slots.close :
    Slots { s with closing := false, connections := s.connections.map (close s.pool) } where
  nodup := by
    have hid : Connection.id ∘ Connections.close s.pool = Connection.id :=
      funext fun c => close_id s.pool c
    rw [List.map_map, hid]
    exact h.nodup
  drawn := by
    intro d hd
    obtain ⟨c, hc, rfl⟩ := List.mem_map.mp hd
    simpa using h.drawn c hc
  keyed := by
    intro d hd hlife
    obtain ⟨c, hc, rfl⟩ := List.mem_map.mp hd
    simpa using h.keyed c hc (by simpa using hlife)
  owned := by
    intro id hid
    obtain ⟨c, hc, hcid, hlife⟩ := h.owned id hid
    exact ⟨_, List.mem_map_of_mem hc, by simpa using hcid, by simpa using hlife⟩
  bounded := h.bounded

theorem Slots.effect {s' : Connections} {out : List Output} (heffect : s.Effect s' out) :
    s'.Slots := by
  cases heffect with
  | refuses | again => exact h
  | waits | full => exact ⟨h.nodup, h.drawn, h.keyed, h.owned, h.bounded⟩
  | creates hwaiting hroom => exact h.create hroom
  | draws =>
    exact ⟨h.nodup, fun c hc => (h.drawn c hc).trans (Nat.le_succ _), h.keyed, h.owned, h.bounded⟩
  | moves hc life hlife =>
    refine h.set hc life ?_ ?_
    · rcases hlife with ⟨hc, -⟩ | ⟨hc, -⟩ | ⟨hc, -⟩ <;> simp [hc]
    · rcases hlife with ⟨-, rfl⟩ | ⟨-, rfl, -⟩ | ⟨-, rfl, hflag⟩ <;> simp [*]
  | erases hc hlife => exact h.erase hc (by simp [hlife])
  | flags =>
    refine ⟨h.nodup, h.drawn, h.keyed, ?_, h.bounded⟩
    intro id hid
    obtain ⟨c, hc, hcid, -⟩ := h.owned id hid
    exact ⟨c, hc, hcid, by simp⟩
  | closes => exact h.close

/-- The places taken are as many as the connections that are not freed. -/
theorem Slots.card_eq (hopen : s.pool.fshutdown = false) :
    s.pool.connections.card = s.connections.countP Connection.unfreed := by
  have hkeys : s.pool.connections =
      ((s.connections.filter Connection.unfreed).map Connection.id).toFinset := by
    ext id
    rw [List.mem_toFinset, List.mem_map]
    constructor
    · intro hid
      obtain ⟨c, hc, hcid, hlife⟩ := h.owned id hid
      exact ⟨c, List.mem_filter.mpr ⟨hc, by simpa [Connection.unfreed] using hlife hopen⟩, hcid⟩
    · rintro ⟨c, hc, rfl⟩
      obtain ⟨hc, hlife⟩ := List.mem_filter.mp hc
      exact h.keyed c hc (by simpa [Connection.unfreed] using hlife)
  rw [hkeys, List.toFinset_card_of_nodup ((List.filter_sublist.map _).nodup h.nodup),
    List.length_map, List.countP_eq_length_filter]

end

/-- The ids of the connections that `getConnection` has returned. -/
def returned (out : List Output) : List CID :=
  out.filterMap fun | .returned id => id

theorem effect_maxSize {s s' : Connections} {out : List Output} (heffect : s.Effect s' out) :
    s'.pool.maxSize = s.pool.maxSize := by
  cases heffect with
  | erases =>
    simp only [Pool.eraseConnection]
    split <;> rfl
  | _ => rfl

theorem effect_returned {s s' : Connections} {out : List Output} (heffect : s.Effect s' out) :
    s'.connections.map Connection.id = s.connections.map Connection.id ++ returned out := by
  cases heffect with
  | creates => simp [returned]
  | moves hc life | erases hc => simp [returned, map_id_set hc]
  | closes => simp [returned]
  | _ => simp [returned]

section

variable {maxSize : ℕ} {is : List Event} {t : Connections} {out : List Output}
  (hrun : machine.run (fresh maxSize) is = .ok (t, out))
include hrun

theorem slots_run : t.Slots :=
  machine.run_invariant (fun _ _ s => s.Slots)
    (fun _ _ _ _ _ _ h hstep => h.effect (step_effect hstep)) (slots_fresh maxSize) hrun

theorem maxSize_run : t.pool.maxSize = maxSize :=
  machine.run_invariant (fun _ _ s => s.pool.maxSize = maxSize)
    (fun _ _ _ _ _ _ h hstep => (effect_maxSize (step_effect hstep)).trans h) rfl hrun

theorem returned_run : t.connections.map Connection.id = returned out := by
  refine machine.run_invariant (fun _ out s => s.connections.map Connection.id = returned out)
    ?_ rfl hrun
  intro _ out s _ s' o h hstep
  have happend : returned (out ++ o) = returned out ++ returned o := List.filterMap_append
  rw [effect_returned (step_effect hstep), h, happend]

end

/-- While the pool is open, `getConnection` returns null only for want of a place. -/
theorem Slots.returns_none_iff {s s' : Connections} {out : List Output} (h : s.Slots)
    (heffect : s.Effect s' out) (hopen : s.pool.fshutdown = false) {r : Option CID}
    (hr : .returned r ∈ out) : r = none ↔ s.pool.connections.card = s.pool.maxSize := by
  cases heffect with
  | refuses hflag => simp [hflag] at hopen
  | full hwaiting hfull =>
    obtain rfl : r = none := by simpa using hr
    simp [le_antisymm h.bounded hfull]
  | creates hwaiting hroom =>
    obtain rfl : r = some (s.lastId + 1) := by simpa using hr
    simp [hroom.ne]
  | _ => cases hr

/-- The places of an open pool are those of the connections that `getConnection` has returned and
that are not freed; there are never more than `maxSize` of them, and with so many, and only then,
`getConnection` returns null. -/
theorem places_of_unfreed {maxSize : ℕ} {is : List Event} {t : Connections} {out : List Output}
    (hrun : machine.run (fresh maxSize) is = .ok (t, out)) (hopen : t.pool.fshutdown = false) :
    t.connections.map Connection.id = returned out ∧
      (∀ id, id ∈ t.pool.connections ↔ ∃ c ∈ t.connections, c.id = id ∧ c.life ≠ .freed) ∧
      t.pool.connections.card = t.connections.countP Connection.unfreed ∧
      t.connections.countP Connection.unfreed ≤ maxSize ∧
      ∀ e u o, machine.step t e = .ok (u, o) → ∀ r, .returned r ∈ o →
        (r = none ↔ t.connections.countP Connection.unfreed = maxSize) := by
  have hslots : t.Slots := slots_run hrun
  have hmax : t.pool.maxSize = maxSize := maxSize_run hrun
  have hcard := hslots.card_eq hopen
  refine ⟨returned_run hrun, ?_, hcard, ?_, ?_⟩
  · intro id
    constructor
    · intro hid
      obtain ⟨c, hc, hcid, hlife⟩ := hslots.owned id hid
      exact ⟨c, hc, hcid, hlife hopen⟩
    · rintro ⟨c, hc, rfl, hlife⟩
      exact hslots.keyed c hc hlife
  · rw [← hcard, ← hmax]
    exact hslots.bounded
  · intro e u o hstep r hr
    rw [hslots.returns_none_iff (step_effect hstep) hopen hr, hcard, hmax]

/-- One place: a second connection is refused until the destructor of the first is through. -/
theorem places_of_unfreed_one :
    ∃ t out, machine.run (fresh 1) [.get, .insert, .get, .drop 0, .test 0] = .ok (t, out) ∧
      t.pool.fshutdown = false ∧ t.connections.countP Connection.unfreed ≤ 1 ∧
      ∀ u o, machine.step t .insert = .ok (u, o) → ∀ r, .returned r ∈ o → r = none := by
  have hrun : machine.run (fresh 1) [.get, .insert, .get, .drop 0, .test 0] = .ok
      (⟨⟨1, {1000001}, false⟩, 1000001, 1, false, [⟨1000001, .freeing, false⟩]⟩,
        [.returned (some 1000001)]) := rfl
  obtain ⟨-, -, -, hbounded, hnull⟩ := places_of_unfreed hrun rfl
  exact ⟨_, _, hrun, rfl, hbounded, fun u o hstep r hr => (hnull _ u o hstep r hr).mpr rfl⟩

end Connections

end NetComponents.Scgi
