import NetComponents.Livecapture.Server

/-!
# Counting capture servers

`Grabber::open` counts a server when it is created, under a lock, and connects a slot
that counts it off to the termination signal of the server's destructor. Servers go on
by themselves, any number of them at a time; `shutdown` waits for the count to be zero.
-/

namespace NetComponents.Livecapture

open Library Sockets

/-- What `Grabber::open` throws before it has counted a server; `listen` is the exception of a
server that finds no port. -/
inductive OpenError where
  | item_not_found (what : String)
  | too_many_items (what : String)
  | runtime_error (what : String)
  | listen
  deriving DecidableEq, Repr

/-- `captures_` and the servers that it has counted, in order. -/
structure Grabber where
  captures : ℕ
  servers : List Server
  deriving DecidableEq, Repr

namespace Grabber

/-- The first part of a call of `open`, an event of one of the servers, or `shutdown()` finds that
it can return. -/
inductive Event where
  | open (exist listens : Bool) (transport capture : String)
  | server (i : ℕ) (e : Livecapture.Event)
  | shutdown
  deriving DecidableEq, Repr

inductive Output where
  | failed (e : OpenError)
  | server (i : ℕ) (o : Livecapture.Output)
  deriving DecidableEq, Repr

/-- An event that cannot happen, or a decrement of a counter that is zero. -/
inductive Fault where
  | disabled
  | underflow
  deriving DecidableEq, Repr

def cname (capture : String) : String := if capture = "" then "default" else capture

/-- `ServerFactory::create`, which gives no server for another name. -/
def create (transport : String) : Option Protocol :=
  if transport = "tcp" then some .tcp
  else if transport = "websocket" then some .websocket
  else none

/-- `open`, up to the end of its critical section. The capture exists or not (`exist`), and the
constructor of the server finds a port or throws (`listens`). -/
def openServer (limit : ℕ) (g : Grabber) (exist listens : Bool) (transport capture : String) :
    Except OpenError Grabber :=
  let sname := cname capture
  if exist = false then .error (.item_not_found ("capture '" ++ sname ++ "' not found"))
  else if g.captures ≥ limit then .error (.too_many_items "limit of connections reached")
  else
    match create transport with
    | none => .error (.runtime_error ("failed to create '" ++ transport ++ "' server"))
    | some protocol =>
      if listens = false then .error .listen
      else .ok ⟨g.captures + 1, g.servers ++ [.fresh protocol]⟩

/-- The slot that `open` connects: `--captures_`, if the event has made the server emit its
signal. -/
def onterminate (g : Grabber) (out : List Livecapture.Output) : Except Fault Grabber :=
  if .released ∈ out then
    if g.captures = 0 then .error .underflow else .ok { g with captures := g.captures - 1 }
  else .ok g

def step (debug : Bool) (limit : ℕ) (g : Grabber) : Event → Except Fault (Grabber × List Output)
  | .open exist listens transport capture =>
    match g.openServer limit exist listens transport capture with
    | .error e => .ok (g, [.failed e])
    | .ok g' => .ok (g', [])
  | .server i e =>
    match g.servers[i]? with
    | none => .error .disabled
    | some s =>
      match s.step debug e with
      | .error _ => .error .disabled
      | .ok (s', out) =>
        (onterminate { g with servers := g.servers.set i s' } out).map fun g' =>
          (g', out.map (.server i))
  | .shutdown => if g.captures = 0 then .ok (g, []) else .error .disabled

def machine (debug : Bool) (limit : ℕ) : Machine Fault Grabber Event Output where
  step := step debug limit

def fresh : Grabber := ⟨0, []⟩

end Grabber

namespace Server

/-- `Grabber::open` has connected its slot before it goes on. -/
def Counted (s : Server) : Prop := s.counting = false → s.opening = .counted

theorem Counted.of_eq {s t : Server} (h : s.Counted) (hcounting : t.counting = s.counting)
    (hopening : t.opening = s.opening) : t.Counted := by
  unfold Counted
  rw [hcounting, hopening]
  exact h

theorem Counted.effect {s s' : Server} {out : List Output} (h : s.Counted)
    (heffect : s.Effect s' out) : s'.Counted := by
  cases heffect with
  | connects hopening => exact fun hcounting => absurd hcounting (by simp)
  | throws hopening => exact fun hcounting => absurd (h hcounting) (by simp [hopening])
  | waits hopening =>
    rw [startWait_eq]
    exact fun hcounting => absurd (h hcounting) (by simp [hopening])
  | listens hopening l => exact fun hcounting => absurd (h hcounting) (by simp [hopening])
  | returns hopening => exact fun hcounting => absurd (h hcounting) (by simp [hopening])
  | expires hwait => exact h.of_eq rfl rfl
  | timeout hwait => exact h.of_eq rfl rfl
  | aborts hwait => exact h.of_eq rfl rfl
  | operates hop l => exact h.of_eq rfl rfl
  | serves hop r l l' => exact h.of_eq (frame_serve _ r).counting (frame_serve _ r).opening
  | terminates => exact h.of_eq rfl rfl
  | ignores => exact h
  | gone client =>
    exact h.of_eq (s.frame_clientGone client).counting (s.frame_clientGone client).opening

theorem destroyed_effect {s s' : Server} {out : List Output} (heffect : s.Effect s' out) :
    s'.destroyed = s.destroyed ∧ .released ∉ out := by
  cases heffect with
  | waits hopening =>
    rw [startWait_eq]
    exact ⟨rfl, by simp⟩
  | serves hop r l l' =>
    refine ⟨(frame_serve _ r).destroyed, ?_⟩
    rcases serve_cases { s with listener := l } r with ⟨hout, -⟩ | ⟨-, hout, -⟩ <;> simp [hout]
  | gone client => exact ⟨(s.frame_clientGone client).destroyed, by simp⟩
  | _ => exact ⟨rfl, by simp⟩

theorem count_effect {s s' : Server} {out : List Output} (heffect : s.Effect s' out) :
    s'.count = s.count + out.count .started ∧ (s.count ≤ 1 → s'.count ≤ 1) := by
  cases heffect with
  | waits hopening =>
    rw [startWait_eq]
    exact ⟨rfl, id⟩
  | serves hop r l l' =>
    rcases serve_cases { s with listener := l } r with ⟨hout, hcount⟩ | ⟨hfree, hout, hcount, -⟩
    · simp [hout, hcount]
    · have hzero : s.count = 0 := hfree
      simp only [hout, hcount]
      simp [hzero]
  | gone client => simp
  | _ => exact ⟨rfl, id⟩

/-- An event leaves the server alone, or destroys it and then reaches the slot of `open`. -/
theorem step_destroys {debug : Bool} {s t : Server} {e : Livecapture.Event} {out : List Output}
    (h : s.Counted) (hstep : s.step debug e = .ok (t, out)) :
    t.destroyed = s.destroyed ∧ .released ∉ out ∨
    s.destroyed = false ∧ t.destroyed = true ∧ .released ∈ out := by
  obtain ⟨s', o, hfire, rfl, rfl⟩ := step_cases hstep
  have heffect := fire_effect hfire
  obtain ⟨hsame, hout⟩ := destroyed_effect heffect
  rcases s'.settle_cases with hsettle | ⟨halive, hfree, hsettle⟩
  · left
    simp [hsettle, hsame, hout]
  · right
    have hcounting : s'.counting = true := by
      by_contra hnot
      apply hfree
      left
      rw [h.effect heffect (by simpa using hnot)]
      decide
    simp [hsettle, destroy, hcounting, ← hsame, halive]

theorem Counted.step {debug : Bool} {s t : Server} {e : Livecapture.Event} {out : List Output}
    (h : s.Counted) (hstep : s.step debug e = .ok (t, out)) : t.Counted := by
  obtain ⟨s', o, hfire, rfl, -⟩ := step_cases hstep
  exact (h.effect (fire_effect hfire)).of_eq s'.settled.counting s'.settled.opening

theorem count_step {debug : Bool} {s t : Server} {e : Livecapture.Event} {out : List Output}
    (hstep : s.step debug e = .ok (t, out)) :
    t.count = s.count + out.count .started ∧ (s.count ≤ 1 → t.count ≤ 1) := by
  obtain ⟨s', o, hfire, rfl, rfl⟩ := step_cases hstep
  obtain ⟨hcount, hle⟩ := count_effect (fire_effect hfire)
  have hnone : s'.settle.2.count .started = 0 := by
    rw [List.count_eq_zero]
    intro hmem
    cases output_settle hmem
  rw [s'.settled.count, List.count_append, hnone]
  exact ⟨hcount, hle⟩

end Server

namespace Grabber

theorem openServer_ok {limit : ℕ} {g g' : Grabber} {exist listens : Bool}
    {transport capture : String}
    (h : g.openServer limit exist listens transport capture = .ok g') :
    g.captures < limit ∧ ∃ protocol, g' = ⟨g.captures + 1, g.servers ++ [.fresh protocol]⟩ := by
  unfold openServer at h
  simp only at h
  split_ifs at h with hexist hlimit hlistens
  · cases hcreate : create transport <;> simp [hcreate] at h
  · cases hcreate : create transport with
    | none => simp [hcreate] at h
    | some protocol =>
      simp only [hcreate, Except.ok.injEq] at h
      exact ⟨by omega, protocol, h.symm⟩

/-- The servers that are counted and not yet destroyed. -/
def live (g : Grabber) : ℕ := g.servers.countP fun s => !s.destroyed

/-- The books are right: what holds of the counter and of each server, and how the number of
started clients shows in the output. -/
structure Balanced (limit : ℕ) (out : List Output) (g : Grabber) : Prop where
  captures : g.captures = g.live
  le : g.captures ≤ limit
  counted : ∀ s ∈ g.servers, s.Counted
  count : ∀ s ∈ g.servers, s.count ≤ 1
  started : ∀ i, out.count (.server i .started) = (g.servers[i]?.map Server.count).getD 0

theorem balanced_fresh (limit : ℕ) : Balanced limit [] fresh := by
  constructor <;> simp [fresh, live]

theorem Balanced.openServer {limit : ℕ} {out : List Output} {g g' : Grabber}
    {exist listens : Bool} {transport capture : String} (h : g.Balanced limit out)
    (hopen : g.openServer limit exist listens transport capture = .ok g') :
    g'.Balanced limit out := by
  obtain ⟨hlt, protocol, rfl⟩ := openServer_ok hopen
  constructor
  · simp [live, h.captures, Server.fresh]
  · exact hlt
  · intro s hs
    rcases List.mem_append.mp hs with hs | hs
    · exact h.counted s hs
    · rw [List.mem_singleton.mp hs]
      exact fun _ => rfl
  · intro s hs
    rcases List.mem_append.mp hs with hs | hs
    · exact h.count s hs
    · rw [List.mem_singleton.mp hs]
      exact Nat.zero_le 1
  · intro i
    rw [h.started i, List.getElem?_append]
    split_ifs with hi
    · rfl
    · rw [List.getElem?_eq_none (by omega)]
      cases i - g.servers.length <;> simp [Server.fresh]

section ServerStep

variable {limit : ℕ} {out : List Output} {g : Grabber} {i : ℕ} {s s' : Server}
  {debug : Bool} {e : Livecapture.Event} {o : List Livecapture.Output}

theorem live_set (hi : g.servers[i]? = some s) (s' : Server) :
    live { g with servers := g.servers.set i s' } + (if s.destroyed then 0 else 1) =
      g.live + if s'.destroyed then 0 else 1 := by
  have hset := Machine.countP_set_add (fun s : Server => !s.destroyed) hi s'
  unfold live
  cases hs : s.destroyed <;> cases hs' : s'.destroyed <;> simpa [hs, hs'] using hset

theorem onterminate_ok {g g' : Grabber} (h : g.onterminate o = .ok g') :
    g'.servers = g.servers ∧
      g'.captures = g.captures - (if .released ∈ o then 1 else 0) := by
  unfold onterminate at h
  split_ifs at h with hreleased hzero
  · cases h
    exact ⟨rfl, by rw [if_pos hreleased]⟩
  · cases h
    exact ⟨rfl, by rw [if_neg hreleased]; rfl⟩

theorem Balanced.captures_pos (h : g.Balanced limit out) (hi : g.servers[i]? = some s)
    (hstep : s.step debug e = .ok (s', o)) (hreleased : .released ∈ o) : g.captures ≠ 0 := by
  have hs := List.mem_of_getElem? hi
  obtain ⟨-, hnot⟩ | ⟨halive, -, -⟩ := Server.step_destroys (h.counted s hs) hstep
  · exact absurd hreleased hnot
  · rw [h.captures]
    exact (Machine.countP_pos_of_getElem? _ hi (by simp [halive])).ne'

theorem count_map_server (i j : ℕ) (o : List Livecapture.Output) (a : Livecapture.Output) :
    (o.map (Output.server i)).count (.server j a) = if i = j then o.count a else 0 := by
  split_ifs with hij
  · rw [hij]
    exact List.count_map_of_injective o _ (fun a b hab => by cases hab; rfl) _
  · rw [List.count_eq_zero]
    intro hmem
    obtain ⟨b, -, hb⟩ := List.mem_map.mp hmem
    cases hb
    exact hij rfl

theorem Balanced.server (h : g.Balanced limit out) (hi : g.servers[i]? = some s)
    (hstep : s.step debug e = .ok (s', o)) {g' : Grabber}
    (hok : onterminate { g with servers := g.servers.set i s' } o = .ok g') :
    g'.Balanced limit (out ++ o.map (.server i)) := by
  have hs := List.mem_of_getElem? hi
  obtain ⟨hservers, hcaptures⟩ := onterminate_ok hok
  have hlive : g'.live = live { g with servers := g.servers.set i s' } := by
    simp only [live, hservers]
  have hset := live_set hi s'
  rw [← hlive] at hset
  have hdestroys := Server.step_destroys (h.counted s hs) hstep
  obtain ⟨hcount, hle⟩ := Server.count_step hstep
  constructor
  · rw [hcaptures, h.captures]
    obtain ⟨hsame, hnot⟩ | ⟨halive, hdestroyed, hreleased⟩ := hdestroys
    · rw [if_neg hnot]
      rw [hsame] at hset
      omega
    · rw [if_pos hreleased]
      simp only [halive, hdestroyed] at hset
      simp at hset
      omega
  · rw [hcaptures]
    exact (Nat.sub_le _ _).trans h.le
  · intro t ht
    rw [hservers] at ht
    rcases List.mem_or_eq_of_mem_set ht with ht | rfl
    · exact h.counted t ht
    · exact (h.counted s hs).step hstep
  · intro t ht
    rw [hservers] at ht
    rcases List.mem_or_eq_of_mem_set ht with ht | rfl
    · exact h.count t ht
    · exact hle (h.count s hs)
  · intro j
    obtain ⟨hlt, hget⟩ := List.getElem?_eq_some_iff.mp hi
    rw [hservers, List.count_append, h.started j, count_map_server, List.getElem?_set]
    split_ifs with hij
    · subst hij
      simp [hi, hcount]
    · simp

end ServerStep

/-- One event keeps the books right, unless it cannot happen. -/
theorem Balanced.step {limit : ℕ} {out : List Output} {g : Grabber} (h : g.Balanced limit out)
    (debug : Bool) (e : Event) :
    (∃ g' o, g.step debug limit e = .ok (g', o) ∧ g'.Balanced limit (out ++ o) ∧
      (e = .shutdown → g'.captures = 0)) ∨
    ∃ fault, g.step debug limit e = .error fault ∧ fault = .disabled := by
  cases e with
  | «open» exist listens transport capture =>
    left
    cases hopen : g.openServer limit exist listens transport capture with
    | error e =>
      refine ⟨g, [.failed e], by simp only [Grabber.step, hopen], ?_, by simp⟩
      exact ⟨h.captures, h.le, h.counted, h.count, by simpa using h.started⟩
    | ok g' =>
      refine ⟨g', [], by simp only [Grabber.step, hopen], ?_, by simp⟩
      simpa using h.openServer hopen
  | server i e =>
    cases hi : g.servers[i]? with
    | none => exact .inr ⟨.disabled, by simp only [Grabber.step, hi], rfl⟩
    | some s =>
      cases hstep : s.step debug e with
      | error fault => exact .inr ⟨.disabled, by simp only [Grabber.step, hi, hstep], rfl⟩
      | ok r =>
        obtain ⟨s', o⟩ := r
        left
        obtain ⟨g', hok⟩ : ∃ g', onterminate { g with servers := g.servers.set i s' } o =
            .ok g' := by
          unfold onterminate
          split_ifs with hreleased hzero
          · exact absurd hzero (h.captures_pos hi hstep hreleased)
          · exact ⟨_, rfl⟩
          · exact ⟨_, rfl⟩
        refine ⟨g', o.map (.server i), ?_, h.server hi hstep hok, by simp⟩
        simp only [Grabber.step, hi, hstep, hok, Except.map]
  | shutdown =>
    by_cases hzero : g.captures = 0
    · left
      refine ⟨g, [], by simp only [Grabber.step, if_pos hzero], by simpa using h, fun _ => hzero⟩
    · exact .inr ⟨.disabled, by simp only [Grabber.step, if_neg hzero], rfl⟩

/-- In every run the counter is the number of counted servers that are not destroyed. It stays
within the limit and is never decremented below zero, it is zero when `shutdown()` returns, and
no server starts two clients. -/
theorem captures_accounting (debug : Bool) (limit : ℕ) (events : List Event) :
    (machine debug limit).run fresh events ≠ .error .underflow ∧
    ∀ g out, (machine debug limit).run fresh events = .ok (g, out) →
      g.captures = (g.servers.countP fun s => !s.destroyed) ∧ g.captures ≤ limit ∧
      (∀ earlier, events = earlier ++ [.shutdown] → g.captures = 0) ∧
      ∀ i, out.count (.server i .started) ≤ 1 := by
  have hall : ∀ e ∈ events, True := fun _ _ => trivial
  have hrun := (machine debug limit).run_outcome
    (fun is out g => g.Balanced limit out ∧ ∀ js, is = js ++ [.shutdown] → g.captures = 0)
    (fun _ => True) (fun fault => fault = .disabled)
    (by
      intro is out g e hg _
      rcases hg.1.step debug e with ⟨g', o, hstep, hg', hzero⟩ | hfault
      · refine .inl ⟨g', o, hstep, hg', ?_⟩
        intro js hjs
        exact hzero (by simpa using congrArg List.getLast? hjs)
      · exact .inr hfault)
    ⟨balanced_fresh limit, by simp⟩ hall
  rcases hrun with ⟨t, o, hok, hbalanced, hshutdown⟩ | ⟨fault, herror, rfl⟩
  · refine ⟨by simp [hok], ?_⟩
    intro g out hgout
    cases hok.symm.trans hgout
    refine ⟨hbalanced.captures, hbalanced.le, hshutdown, ?_⟩
    intro i
    rw [hbalanced.started i]
    cases hi : t.servers[i]? with
    | none => exact Nat.zero_le 1
    | some s => exact hbalanced.count s (List.mem_of_getElem? hi)
  · refine ⟨by simp [herror], ?_⟩
    intro g out hgout
    cases herror.symm.trans hgout

/-- Two calls, one of which is refused by the limit; the server of the other fails to start. -/
def failingOpens : List Event :=
  [.open true true "tcp" "", .open true true "websocket" "", .server 0 .connect,
    .server 0 (.wait true), .server 0 .return, .shutdown]

theorem captures_accounting_failing :
    ∃ g out, (machine true 1).run fresh failingOpens = .ok (g, out) ∧
      g.captures = (g.servers.countP fun s => !s.destroyed) ∧ g.captures ≤ 1 ∧
      (∀ earlier, failingOpens = earlier ++ [.shutdown] → g.captures = 0) ∧
      ∀ i, out.count (.server i .started) ≤ 1 :=
  ⟨_, _, rfl, (captures_accounting true 1 _).2 _ _ rfl⟩

end Grabber

end NetComponents.Livecapture
