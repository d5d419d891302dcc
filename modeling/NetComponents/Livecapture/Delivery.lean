import NetComponents.Livecapture.Lifetime
import NetComponents.Pcap.Capture

/-!
# From the device to the clients

A sniffer announces each packet through a signal. The slots are those of the clients, in the order
of their constructors; a client posts a handler that filters the packet. A slot of a client that is
not yet, or no longer, owned by a shared pointer throws, the sniffer catches the exception, and the
clients behind it do not see the packet.
-/

namespace NetComponents.Livecapture

open Library Sockets

/-- A sniffer with all the clients that have been created for it, in order. -/
structure Capture (τ : Type) where
  sniffer : Pcap.Sniffer τ
  clients : List Client

namespace Capture

/-- A step of the sniffer; the constructor of a new client connects its slot; a step of a client,
other than those that the sniffer makes. -/
inductive Event where
  | sniffer (e : Pcap.Sniffer.Event)
  | connect (protocol : Protocol) (filter : Bytes) (termination : Bool)
  | client (k : ℕ) (e : Client.Event)
  deriving DecidableEq, Repr

inductive Output where
  | sniffer (o : Pcap.Sniffer.Output)
  | client (k : ℕ) (o : Client.Output)

/-- There is no such step; the parser looks outside of a frame. -/
inductive Fault where
  | disabled
  | undefined
  deriving DecidableEq, Repr

variable (toISOString : Pcap.Timeval → String) (port : ℕ)

/-- An emission of the signal to the clients from number `k` on. -/
def emit (p : Pcap.Packet) (k : ℕ) : List Client → List Client × List Output
  | [] => ([], [])
  | c :: clients =>
    -- a client that is destroyed has disconnected its slot
    if c.phase = .destroyed then
      let r := emit p (k + 1) clients
      (c :: r.1, r.2)
    else
      match c.step toISOString port (.packet p) with
      | .ok (c', out) =>
        let r := emit p (k + 1) clients
        (c' :: r.1, out.map (.client k) ++ r.2)
      | .error _ => (c :: clients, [])

/-- The emissions of a step of the sniffer. -/
def announce (clients : List Client) : List Pcap.Sniffer.Output → List Client × List Output
  | [] => (clients, [])
  | .notified p :: rest =>
    let r := emit toISOString port p 0 clients
    let r' := announce r.1 rest
    (r'.1, .sniffer (.notified p) :: r.2 ++ r'.2)
  | o :: rest =>
    let r := announce clients rest
    (r.1, .sniffer o :: r.2)

variable {τ : Type} (parser : Pcap.IParser τ) (debug : Bool)

/-- A client holds its sniffer until it is destroyed. -/
def Unused (s : Capture τ) : Prop := ∀ c ∈ s.clients, c.phase = .destroyed

instance (s : Capture τ) : Decidable s.Unused := inferInstanceAs (Decidable (∀ _ ∈ _, _))

def step (s : Capture τ) : Event → Except Fault (Capture τ × List Output)
  | .sniffer e =>
    if e = .destroy ∧ ¬s.Unused then .error .disabled
    else
      match Pcap.Sniffer.step parser debug s.sniffer e with
      | .error .disabled => .error .disabled
      | .error .undefined => .error .undefined
      | .ok (sniffer, out) =>
        let r := announce toISOString port s.clients out
        .ok (⟨sniffer, r.1⟩, r.2)
  | .connect protocol filter termination =>
    if s.sniffer.destroyed then .error .disabled
    else .ok ({ s with clients := s.clients ++ [.fresh protocol filter termination] }, [])
  | .client k e =>
    match s.clients[k]?, e with
    | none, _ => .error .disabled
    | some _, .packet _ => .error .disabled
    | some c, e =>
      match c.step toISOString port e with
      | .error _ => .error .disabled
      | .ok (c', out) => .ok ({ s with clients := s.clients.set k c' }, out.map (.client k))

def machine : Machine Fault (Capture τ) Event Output := ⟨step toISOString port parser debug⟩

def fresh (offline : Bool) (t : τ) : Capture τ := ⟨.fresh offline t, []⟩

/-- What is seen of the sniffer. -/
def sniffed (out : List Output) : List Pcap.Sniffer.Output :=
  out.filterMap fun
    | .sniffer o => some o
    | .client _ _ => none

/-- What is seen of a client. -/
def seen (k : ℕ) (out : List Output) : List Client.Output :=
  out.filterMap fun
    | .sniffer _ => none
    | .client j o => if j = k then some o else none

@[simp] theorem sniffed_append (out out' : List Output) :
    sniffed (out ++ out') = sniffed out ++ sniffed out' := List.filterMap_append

@[simp] theorem seen_append (k : ℕ) (out out' : List Output) :
    seen k (out ++ out') = seen k out ++ seen k out' := List.filterMap_append

@[simp] theorem sniffed_client (k : ℕ) (out : List Client.Output) :
    sniffed (out.map (.client k)) = [] := by
  simp [sniffed]

@[simp] theorem seen_client (k : ℕ) (out : List Client.Output) :
    seen k (out.map (.client k)) = out := by
  simp [seen]

theorem sniffed_sniffer_cons (o : Pcap.Sniffer.Output) (out : List Output) :
    sniffed (.sniffer o :: out) = o :: sniffed out := rfl

theorem seen_sniffer_cons (k : ℕ) (o : Pcap.Sniffer.Output) (out : List Output) :
    seen k (.sniffer o :: out) = seen k out := rfl

theorem seen_client_ne {j k : ℕ} (h : j ≠ k) (out : List Client.Output) :
    seen k (out.map (.client j)) = [] := by
  simp [seen, h]

end Capture

/-- The slot of the client throws. -/
def Client.Half (c : Client) : Prop := c.phase = .constructing ∨ c.phase = .destroying

instance (c : Client) : Decidable c.Half := inferInstanceAs (Decidable (_ ∨ _))

namespace Capture

/-- A client in front of number `k` keeps the packets from it. -/
def Shadowed (clients : List Client) (k : ℕ) : Prop :=
  ∃ j, j < k ∧ ∃ c, clients[j]? = some c ∧ c.Half

/-- An emission reaches the slot of this client, and the slot posts. -/
def Reached (clients : List Client) (k : ℕ) : Prop :=
  (∃ c, clients[k]? = some c ∧ c.Alive) ∧ ¬Shadowed clients k

theorem reached_zero {c : Client} {clients : List Client} :
    Reached (c :: clients) 0 ↔ c.Alive := by
  simp [Reached, Shadowed]

theorem shadowed_succ {c : Client} {clients : List Client} {k : ℕ} :
    Shadowed (c :: clients) (k + 1) ↔ c.Half ∨ Shadowed clients k := by
  constructor
  · rintro ⟨j, hj, d, hd, hhalf⟩
    cases j with
    | zero =>
      simp only [List.getElem?_cons_zero, Option.some.injEq] at hd
      subst hd
      exact .inl hhalf
    | succ j =>
      rw [List.getElem?_cons_succ] at hd
      exact .inr ⟨j, by omega, d, hd, hhalf⟩
  · rintro (hhalf | ⟨j, hj, d, hd, hhalf⟩)
    · exact ⟨0, by omega, c, rfl, hhalf⟩
    · exact ⟨j + 1, by omega, d, by simpa using hd, hhalf⟩

theorem reached_succ {c : Client} {clients : List Client} {k : ℕ} :
    Reached (c :: clients) (k + 1) ↔ ¬c.Half ∧ Reached clients k := by
  simp only [Reached, List.getElem?_cons_succ, shadowed_succ, not_or]
  tauto

section Emission

variable (toISOString : Pcap.Timeval → String) (port : ℕ)

theorem step_packet (c : Client) (p : Pcap.Packet) :
    c.step toISOString port (.packet p) =
      if c.Alive then .ok ({ c with posted := c.posted ++ [p] }, [.posted p])
      else .error .badWeakPtr := by
  by_cases halive : c.Alive
  · have hheld : Client.Held { c with posted := c.posted ++ [p] } := .inr (.inr (by simp))
    have hfire : c.fire toISOString port (.packet p) =
        some ({ c with posted := c.posted ++ [p] }, [.posted p]) := if_pos halive
    rw [if_pos halive]
    simp [Client.step, hfire, Client.settle, hheld]
  · have hfire : c.fire toISOString port (.packet p) = none := if_neg halive
    rw [if_neg halive]
    simp [Client.step, hfire]

theorem alive_iff {c : Client} (h : c.phase ≠ .destroyed) : c.Alive ↔ ¬c.Half := by
  unfold Client.Alive Client.Half
  cases hphase : c.phase <;> simp [hphase] at h ⊢

theorem seen_singleton_ne {j k : ℕ} (h : j ≠ k) (o : Client.Output) :
    seen k [.client j o] = [] := by
  simp [seen, h]

theorem seen_singleton (k : ℕ) (o : Client.Output) : seen k [.client k o] = [o] := by
  simp [seen]

/-- What an emission does to each client of the list, and to nobody in front of it. -/
theorem emit_spec (p : Pcap.Packet) (clients : List Client) (k : ℕ) :
    (∀ i, Reached clients i →
      (emit toISOString port p k clients).1[i]? =
        clients[i]?.map (fun c => { c with posted := c.posted ++ [p] }) ∧
      seen (k + i) (emit toISOString port p k clients).2 = [.posted p]) ∧
    (∀ i, ¬Reached clients i →
      (emit toISOString port p k clients).1[i]? = clients[i]? ∧
      seen (k + i) (emit toISOString port p k clients).2 = []) ∧
    ∀ i < k, seen i (emit toISOString port p k clients).2 = [] := by
  induction clients generalizing k with
  | nil =>
    refine ⟨?_, fun i _ => ⟨rfl, rfl⟩, fun i _ => rfl⟩
    rintro i ⟨⟨c, hc, -⟩, -⟩
    simp at hc
  | cons c clients ih =>
    obtain ⟨hreached, hmissed, hfront⟩ := ih (k + 1)
    by_cases hdestroyed : c.phase = .destroyed
    · have hemit : emit toISOString port p k (c :: clients) =
          (c :: (emit toISOString port p (k + 1) clients).1,
            (emit toISOString port p (k + 1) clients).2) := by
        simp [emit, hdestroyed]
      have hdead : ¬c.Alive ∧ ¬c.Half := by simp [Client.Alive, Client.Half, hdestroyed]
      rw [hemit]
      refine ⟨?_, ?_, fun i hi => hfront i (by omega)⟩
      · intro i hi
        cases i with
        | zero => exact absurd (reached_zero.mp hi) hdead.1
        | succ i =>
          rw [← Nat.add_assoc, Nat.add_right_comm]
          exact hreached i (reached_succ.mp hi).2
      · intro i hi
        cases i with
        | zero => exact ⟨rfl, hfront k (by omega)⟩
        | succ i =>
          rw [← Nat.add_assoc, Nat.add_right_comm]
          exact hmissed i fun h => hi (reached_succ.mpr ⟨hdead.2, h⟩)
    · by_cases halive : c.Alive
      · have hemit : emit toISOString port p k (c :: clients) =
            ({ c with posted := c.posted ++ [p] } ::
                (emit toISOString port p (k + 1) clients).1,
              [.client k (.posted p)] ++ (emit toISOString port p (k + 1) clients).2) := by
          simp [emit, hdestroyed, step_packet, halive]
        have hhalf := (alive_iff hdestroyed).mp halive
        rw [hemit]
        refine ⟨?_, ?_, ?_⟩
        · intro i hi
          cases i with
          | zero =>
            refine ⟨rfl, ?_⟩
            dsimp only
            rw [seen_append, Nat.add_zero, seen_singleton, hfront k (by omega)]
            rfl
          | succ i =>
            rw [← Nat.add_assoc, Nat.add_right_comm]
            dsimp only
            rw [seen_append, seen_singleton_ne (by omega), List.nil_append]
            exact hreached i (reached_succ.mp hi).2
        · intro i hi
          cases i with
          | zero => exact absurd (reached_zero.mpr halive) hi
          | succ i =>
            rw [← Nat.add_assoc, Nat.add_right_comm]
            dsimp only
            rw [seen_append, seen_singleton_ne (by omega), List.nil_append]
            exact hmissed i fun h => hi (reached_succ.mpr ⟨hhalf, h⟩)
        · intro i hi
          rw [seen_append, seen_singleton_ne (by omega), List.nil_append]
          exact hfront i (by omega)
      · have hemit : emit toISOString port p k (c :: clients) = (c :: clients, []) := by
          simp [emit, hdestroyed, step_packet, halive]
        have hhalf : c.Half := by
          by_contra hhalf
          exact halive ((alive_iff hdestroyed).mpr hhalf)
        rw [hemit]
        refine ⟨?_, fun i _ => ⟨rfl, rfl⟩, fun i _ => rfl⟩
        intro i hi
        cases i with
        | zero => exact absurd (reached_zero.mp hi) halive
        | succ i => exact absurd hhalf (reached_succ.mp hi).1

theorem sniffed_emit (p : Pcap.Packet) (clients : List Client) (k : ℕ) :
    sniffed (emit toISOString port p k clients).2 = [] := by
  induction clients generalizing k with
  | nil => rfl
  | cons c clients ih =>
    by_cases hdestroyed : c.phase = .destroyed
    · simp [emit, hdestroyed, ih]
    · by_cases halive : c.Alive
      · have hposted : sniffed [.client k (.posted p)] = [] := rfl
        simp only [emit, hdestroyed, if_false, step_packet, halive, if_true, List.map_cons,
          List.map_nil, sniffed_append, hposted, ih, List.append_nil]
      · simp [emit, hdestroyed, step_packet, halive, sniffed]

theorem map_phase_post (c : Option Client) (ps : List Pcap.Packet) :
    (c.map fun c => { c with posted := c.posted ++ ps }).map Client.phase = c.map Client.phase := by
  cases c <;> rfl

theorem reached_congr {clients clients' : List Client}
    (h : ∀ i : ℕ, clients'[i]?.map Client.phase = clients[i]?.map Client.phase) (k : ℕ) :
    Reached clients' k ↔ Reached clients k := by
  have hsome : ∀ (P : Phase → Prop) (i : ℕ),
      (∃ c, clients'[i]? = some c ∧ P c.phase) ↔ ∃ c, clients[i]? = some c ∧ P c.phase := by
    intro P i
    have hi := h i
    cases h' : clients'[i]? with
    | none =>
      cases h'' : clients[i]? with
      | none => simp
      | some d => simp [h', h''] at hi
    | some c =>
      cases h'' : clients[i]? with
      | none => simp [h', h''] at hi
      | some d =>
        simp only [h', h'', Option.map_some, Option.some.injEq] at hi
        simp [hi]
  have halive := hsome (fun p => p = .created ∨ p = .started ∨ p = .released) k
  have hhalf := fun j => hsome (fun p => p = .constructing ∨ p = .destroying) j
  unfold Reached Shadowed
  simp only [Client.Alive, Client.Half, halive, hhalf]

/-- What a step of the sniffer does to each client, and what is seen of it. -/
theorem announce_spec (clients : List Client) (out : List Pcap.Sniffer.Output) :
    (∀ i, Reached clients i →
      (announce toISOString port clients out).1[i]? = clients[i]?.map (fun c =>
        { c with posted := c.posted ++ Pcap.Sniffer.notifications out }) ∧
      seen i (announce toISOString port clients out).2 =
        (Pcap.Sniffer.notifications out).map .posted) ∧
    (∀ i, ¬Reached clients i →
      (announce toISOString port clients out).1[i]? = clients[i]? ∧
      seen i (announce toISOString port clients out).2 = []) ∧
    sniffed (announce toISOString port clients out).2 = out := by
  induction out generalizing clients with
  | nil =>
    refine ⟨fun i _ => ⟨?_, rfl⟩, fun i _ => ⟨rfl, rfl⟩, rfl⟩
    simp [announce, Pcap.Sniffer.notifications]
  | cons o out ih =>
    cases o with
    | notified p =>
      obtain ⟨hreached, hmissed, -⟩ := emit_spec toISOString port p clients 0
      obtain ⟨ihreached, ihmissed, ihsniffed⟩ := ih (emit toISOString port p 0 clients).1
      have hphase : ∀ i : ℕ, (emit toISOString port p 0 clients).1[i]?.map Client.phase =
          clients[i]?.map Client.phase := by
        intro i
        by_cases hi : Reached clients i
        · rw [(hreached i hi).1, map_phase_post]
        · rw [(hmissed i hi).1]
      have hsame := reached_congr hphase
      have hnotifications : Pcap.Sniffer.notifications (.notified p :: out) =
          p :: Pcap.Sniffer.notifications out := rfl
      refine ⟨?_, ?_, ?_⟩
      · intro i hi
        obtain ⟨hclient, hseen⟩ := hreached i hi
        obtain ⟨hclient', hseen'⟩ := ihreached i ((hsame i).mpr hi)
        rw [Nat.zero_add] at hseen
        constructor
        · simp only [announce, hclient', hclient, hnotifications, Option.map_map]
          congr 1
          funext c
          simp
        · simp only [announce, hnotifications, List.cons_append, seen_sniffer_cons, seen_append,
            hseen, hseen', List.map_cons, List.nil_append]
      · intro i hi
        obtain ⟨hclient, hseen⟩ := hmissed i hi
        obtain ⟨hclient', hseen'⟩ := ihmissed i fun h => hi ((hsame i).mp h)
        rw [Nat.zero_add] at hseen
        constructor
        · simp only [announce, hclient', hclient]
        · simp only [announce, List.cons_append, seen_sniffer_cons, seen_append, hseen, hseen',
            List.nil_append]
      · simp only [announce, List.cons_append, sniffed_sniffer_cons, sniffed_append, sniffed_emit,
          ihsniffed, List.nil_append]
    | failed e =>
      obtain ⟨ihreached, ihmissed, ihsniffed⟩ := ih clients
      refine ⟨ihreached, ihmissed, ?_⟩
      simp only [announce, sniffed_sniffer_cons, ihsniffed]
    | touched =>
      obtain ⟨ihreached, ihmissed, ihsniffed⟩ := ih clients
      refine ⟨ihreached, ihmissed, ?_⟩
      simp only [announce, sniffed_sniffer_cons, ihsniffed]

theorem length_emit (p : Pcap.Packet) (clients : List Client) (k : ℕ) :
    (emit toISOString port p k clients).1.length = clients.length := by
  induction clients generalizing k with
  | nil => rfl
  | cons c clients ih =>
    by_cases hdestroyed : c.phase = .destroyed
    · simp [emit, hdestroyed, ih]
    · by_cases halive : c.Alive <;> simp [emit, hdestroyed, step_packet, halive, ih]

theorem length_announce (clients : List Client) (out : List Pcap.Sniffer.Output) :
    (announce toISOString port clients out).1.length = clients.length := by
  induction out generalizing clients with
  | nil => rfl
  | cons o out ih =>
    cases o with
    | notified p => simp [announce, ih, length_emit]
    | failed e => simp [announce, ih]
    | touched => simp [announce, ih]

theorem run_packets {c : Client} (halive : c.Alive) (ps : List Pcap.Packet) :
    (Client.machine toISOString port).run c (ps.map .packet) =
      .ok ({ c with posted := c.posted ++ ps }, ps.map .posted) := by
  induction ps generalizing c with
  | nil => simp
  | cons p ps ih =>
    have hstep : (Client.machine toISOString port).step c (.packet p) =
        .ok ({ c with posted := c.posted ++ [p] }, [.posted p]) := by
      have hstep := step_packet toISOString port c p
      rwa [if_pos halive] at hstep
    have hrest := ih (c := { c with posted := c.posted ++ [p] }) halive
    have hrun := (Client.machine toISOString port).run_cons hstep hrest
    simpa using hrun

end Emission

/-- The clients that have been connected, in order. -/
def connections (events : List Event) : List (Protocol × Bytes × Bool) :=
  events.filterMap fun
    | .connect protocol filter termination => some (protocol, filter, termination)
    | _ => none

section Runs

variable {τ : Type} (toISOString : Pcap.Timeval → String) (port : ℕ) (parser : Pcap.IParser τ)
  (debug : Bool)

/-- The steps of the whole, for each client by itself: a run of the client on its own events and
the packets that its slot has posted. -/
structure Projects (events : List Event) (out : List Output) (s : Capture τ) : Prop where
  count : (connections events).length = s.clients.length
  unseen : ∀ k, s.clients[k]? = none → seen k out = []
  runs : ∀ k c, s.clients[k]? = some c → ∃ protocol filter termination es,
    (connections events)[k]? = some (protocol, filter, termination) ∧
    (Client.machine toISOString port).run (.fresh protocol filter termination) es =
      .ok (c, seen k out) ∧
    ∀ e ∈ es, (∃ p, e = .packet p) ∨ .client k e ∈ events

variable {toISOString port parser debug} {events : List Event} {out : List Output}
  {s s' : Capture τ}

theorem step_sniffer {e : Pcap.Sniffer.Event} {o : List Output}
    (hstep : step toISOString port parser debug s (.sniffer e) = .ok (s', o)) :
    ∃ sniffed, Pcap.Sniffer.step parser debug s.sniffer e = .ok (s'.sniffer, sniffed) ∧
      s'.clients = (announce toISOString port s.clients sniffed).1 ∧
      o = (announce toISOString port s.clients sniffed).2 := by
  unfold step at hstep
  dsimp only at hstep
  split_ifs at hstep
  cases hsniffer : Pcap.Sniffer.step parser debug s.sniffer e with
  | error fault => cases fault <;> simp [hsniffer] at hstep
  | ok r =>
    simp only [hsniffer, Except.ok.injEq, Prod.mk.injEq] at hstep
    obtain ⟨rfl, rfl⟩ := hstep
    exact ⟨r.2, rfl, rfl, rfl⟩

theorem step_connect {protocol : Protocol} {filter : Bytes} {termination : Bool} {o : List Output}
    (hstep : step toISOString port parser debug s (.connect protocol filter termination) =
      .ok (s', o)) :
    s' = { s with clients := s.clients ++ [.fresh protocol filter termination] } ∧ o = [] := by
  unfold step at hstep
  dsimp only at hstep
  split_ifs at hstep
  simp only [Except.ok.injEq, Prod.mk.injEq] at hstep
  exact ⟨hstep.1.symm, hstep.2.symm⟩

theorem step_client {k : ℕ} {e : Client.Event} {o : List Output}
    (hstep : step toISOString port parser debug s (.client k e) = .ok (s', o)) :
    (∀ p, e ≠ .packet p) ∧ ∃ c c' seen, s.clients[k]? = some c ∧
      c.step toISOString port e = .ok (c', seen) ∧
      s' = { s with clients := s.clients.set k c' } ∧ o = seen.map (.client k) := by
  unfold step at hstep
  cases hc : s.clients[k]? with
  | none => simp [hc] at hstep
  | some c =>
    have hpacket : ∀ p, e ≠ .packet p := by
      rintro p rfl
      simp [hc] at hstep
    refine ⟨hpacket, ?_⟩
    cases hclient : c.step toISOString port e with
    | error fault => cases e <;> simp [hc, hclient] at hstep
    | ok r =>
      have hresult : (.ok ({ s with clients := s.clients.set k r.1 }, r.2.map (.client k)) :
          Except Fault _) = .ok (s', o) := by
        cases e <;> first | exact absurd rfl (hpacket _) | simpa [hc, hclient] using hstep
      obtain ⟨rfl, rfl⟩ := Prod.mk.inj (Except.ok.inj hresult)
      exact ⟨c, r.1, r.2, rfl, hclient, rfl, rfl⟩

theorem Projects.step (h : Projects toISOString port events out s) {e : Event} {o : List Output}
    (hstep : Capture.step toISOString port parser debug s e = .ok (s', o)) :
    Projects toISOString port (events ++ [e]) (out ++ o) s' := by
  cases e with
  | sniffer e =>
    obtain ⟨sniffed, -, hclients, rfl⟩ := step_sniffer hstep
    obtain ⟨hreached, hmissed, -⟩ := announce_spec toISOString port s.clients sniffed
    have hnone : ∀ k : ℕ, s'.clients[k]? = none ↔ s.clients[k]? = none := by
      intro k
      rw [hclients, List.getElem?_eq_none_iff, List.getElem?_eq_none_iff, length_announce]
    have hconnections : connections (events ++ [.sniffer e]) = connections events := by
      simp [connections]
    refine ⟨?_, ?_, ?_⟩
    · rw [hconnections, hclients, length_announce]
      exact h.count
    · intro k hk
      have hk := (hnone k).mp hk
      have hout : ¬Reached s.clients k := by
        rintro ⟨⟨c, hc, -⟩, -⟩
        simp [hk] at hc
      rw [seen_append, h.unseen k hk, (hmissed k hout).2]
      rfl
    · intro k c' hc'
      rw [hclients] at hc'
      by_cases hk : Reached s.clients k
      · obtain ⟨hclient, hseen⟩ := hreached k hk
        obtain ⟨⟨c, hc, halive⟩, -⟩ := hk
        rw [hclient, hc] at hc'
        obtain rfl := Option.some.inj hc'
        obtain ⟨protocol, filter, termination, es, hconnection, hrun, hes⟩ := h.runs k c hc
        refine ⟨protocol, filter, termination,
          es ++ (Pcap.Sniffer.notifications sniffed).map .packet, ?_, ?_, ?_⟩
        · rw [hconnections]
          exact hconnection
        · rw [seen_append, hseen]
          exact (Client.machine toISOString port).run_append hrun
            (run_packets toISOString port halive _)
        · intro x hx
          rcases List.mem_append.mp hx with hx | hx
          · exact (hes x hx).imp_right (List.mem_append_left _)
          · obtain ⟨p, -, rfl⟩ := List.mem_map.mp hx
            exact .inl ⟨p, rfl⟩
      · obtain ⟨hclient, hseen⟩ := hmissed k hk
        rw [hclient] at hc'
        obtain ⟨protocol, filter, termination, es, hconnection, hrun, hes⟩ := h.runs k c' hc'
        refine ⟨protocol, filter, termination, es, ?_, ?_, ?_⟩
        · rw [hconnections]
          exact hconnection
        · rw [seen_append, hseen, List.append_nil]
          exact hrun
        · exact fun x hx => (hes x hx).imp_right (List.mem_append_left _)
  | connect protocol filter termination =>
    obtain ⟨rfl, rfl⟩ := step_connect hstep
    have hconnections : connections (events ++ [.connect protocol filter termination]) =
        connections events ++ [(protocol, filter, termination)] := by
      simp [connections]
    refine ⟨?_, ?_, ?_⟩
    · simp [hconnections, h.count]
    · intro k hk
      rw [List.append_nil]
      apply h.unseen
      simp only [List.getElem?_eq_none_iff, List.length_append, List.length_singleton] at hk ⊢
      omega
    · intro k c hc
      rw [List.append_nil]
      by_cases hk : k < s.clients.length
      · rw [List.getElem?_append_left hk] at hc
        obtain ⟨protocol', filter', termination', es, hconnection, hrun, hes⟩ := h.runs k c hc
        refine ⟨protocol', filter', termination', es, ?_, hrun, ?_⟩
        · rw [hconnections, List.getElem?_append_left (by rw [h.count]; exact hk)]
          exact hconnection
        · exact fun x hx => (hes x hx).imp_right (List.mem_append_left _)
      · have hlast : k = s.clients.length := by
          have hlt := (List.getElem?_eq_some_iff.mp hc).1
          simp only [List.length_append, List.length_singleton] at hlt
          omega
        subst hlast
        simp only [List.getElem?_concat_length, Option.some.injEq] at hc
        subst hc
        refine ⟨protocol, filter, termination, [], ?_, ?_, nofun⟩
        · rw [hconnections, ← h.count, List.getElem?_concat_length]
        · rw [h.unseen _ (by simp), Machine.run_nil]
  | client j e =>
    obtain ⟨-, c, c', o', hc, hclient, rfl, rfl⟩ := step_client hstep
    have hconnections : connections (events ++ [.client j e]) = connections events := by
      simp [connections]
    refine ⟨?_, ?_, ?_⟩
    · rw [hconnections, List.length_set]
      exact h.count
    · intro k hk
      have hk : s.clients[k]? = none := by
        rw [List.getElem?_eq_none_iff, List.length_set] at hk
        exact List.getElem?_eq_none_iff.mpr hk
      have hne : j ≠ k := by
        rintro rfl
        simp [hk] at hc
      rw [seen_append, h.unseen k hk, seen_client_ne hne]
      rfl
    · intro k d hd
      by_cases hk : j = k
      · subst hk
        have hlt := (List.getElem?_eq_some_iff.mp hc).1
        rw [List.getElem?_set_self hlt, Option.some.injEq] at hd
        subst hd
        obtain ⟨protocol, filter, termination, es, hconnection, hrun, hes⟩ := h.runs j c hc
        refine ⟨protocol, filter, termination, es ++ [e], ?_, ?_, ?_⟩
        · rw [hconnections]
          exact hconnection
        · rw [seen_append, seen_client]
          exact (Client.machine toISOString port).run_snoc hrun hclient
        · intro x hx
          rcases List.mem_append.mp hx with hx | hx
          · exact (hes x hx).imp_right (List.mem_append_left _)
          · rw [List.mem_singleton.mp hx]
            exact .inr (by simp)
      · rw [List.getElem?_set_ne hk] at hd
        obtain ⟨protocol, filter, termination, es, hconnection, hrun, hes⟩ := h.runs k d hd
        refine ⟨protocol, filter, termination, es, ?_, ?_, ?_⟩
        · rw [hconnections]
          exact hconnection
        · rw [seen_append, seen_client_ne hk, List.append_nil]
          exact hrun
        · exact fun x hx => (hes x hx).imp_right (List.mem_append_left _)

theorem run_projects {offline : Bool} {t : τ}
    (hrun : (machine toISOString port parser debug).run (fresh offline t) events = .ok (s, out)) :
    Projects toISOString port events out s :=
  (machine toISOString port parser debug).run_invariant (Projects toISOString port)
    (fun _ _ _ _ _ _ h hstep => h.step hstep)
    ⟨rfl, fun _ _ => rfl, fun k c hc => by simp [fresh] at hc⟩ hrun

theorem step_posted {c c' : Client} {e : Client.Event} {o : List Client.Output}
    (he : ∀ p, e ≠ .packet p) (hstep : c.step toISOString port e = .ok (c', o)) :
    Client.postedOf o = [] := by
  obtain ⟨d, hfire, -⟩ := Client.step_ok_iff.mp hstep
  by_cases hmoves : e.Moves
  · cases e with
    | packet p => exact absurd rfl (he p)
    | run i =>
      cases hi : c.posted[i]? with
      | none => simp [Client.fire, hi] at hfire
      | some p =>
        simp only [Client.fire, hi] at hfire
        split_ifs at hfire <;> simp only [Option.some.injEq, Prod.mk.injEq] at hfire <;>
          obtain ⟨-, rfl⟩ := hfire <;> rfl
    | strand =>
      cases hstrand : c.strand with
      | nil => simp [Client.fire, hstrand] at hfire
      | cons msg rest =>
        simp only [Client.fire, hstrand] at hfire
        exact Client.serve_posted hfire
    | sent error nwritten => exact Client.serve_posted hfire
    | _ => exact absurd hmoves (fun h => h)
  · rcases (Client.fire_frame hmoves hfire).2 with rfl | rfl <;> rfl

theorem run_constructing {c : Client} {protocol : Protocol} {filter : Bytes} {termination : Bool}
    {es : List Client.Event} {o : List Client.Output}
    (hrun : (Client.machine toISOString port).run (.fresh protocol filter termination) es =
      .ok (c, o)) (hphase : c.phase = .constructing) : Client.postedOf o = [] := by
  have h := (Client.machine toISOString port).run_invariant
    (fun _ o c => c.phase = .constructing → Client.postedOf o = [])
    (by
      intro is out c e c' o h hstep hphase
      have hearlier := (Client.step_phase hstep).2.2 hphase
      have he : ∀ p, e ≠ .packet p := by
        rintro p rfl
        have hpacket := step_packet toISOString port c p
        rw [if_neg (by simp [Client.Alive, hearlier])] at hpacket
        cases hpacket.symm.trans hstep
      rw [Client.postedOf_append, h hearlier, step_posted he hstep]
      rfl)
    (by simp [Client.postedOf]) hrun
  exact h hphase

/-- What an event reads from the device. -/
def readOf : Event → List (Bytes × Pcap.Timeval)
  | .sniffer e => Pcap.Sniffer.read e
  | _ => []

theorem step_notifications {e : Event} {o : List Output}
    (hstep : step toISOString port parser debug s e = .ok (s', o)) :
    s'.sniffer.parser = (parser.all s.sniffer.parser (readOf e)).1 ∧
      Pcap.Sniffer.notifications (sniffed o) = (parser.all s.sniffer.parser (readOf e)).2 := by
  cases e with
  | sniffer e =>
    obtain ⟨o', hsniffer, -, rfl⟩ := step_sniffer hstep
    rw [(announce_spec toISOString port s.clients o').2.2]
    exact Pcap.Sniffer.step_notifications hsniffer
  | connect protocol filter termination =>
    obtain ⟨rfl, rfl⟩ := step_connect hstep
    exact ⟨rfl, rfl⟩
  | client k e =>
    obtain ⟨-, c, c', o', -, -, rfl, rfl⟩ := step_client hstep
    rw [sniffed_client]
    exact ⟨rfl, rfl⟩

theorem run_notifications
    (hrun : (machine toISOString port parser debug).run s events = .ok (s', out)) :
    Pcap.Sniffer.notifications (sniffed out) =
      (parser.all s.sniffer.parser (events.flatMap readOf)).2 := by
  induction events generalizing s out with
  | nil =>
    cases hrun
    rfl
  | cons e events ih =>
    obtain ⟨u, o, o', hstep, hrest, rfl⟩ :=
      (machine toISOString port parser debug).run_cons_ok_iff.mp hrun
    obtain ⟨hparser, hnotified⟩ := step_notifications hstep
    rw [List.flatMap_cons, parser.all_append, sniffed_append,
      Pcap.Sniffer.notifications_append, hnotified, ih hrest, hparser]

/-- What a step does to a client that has been connected. -/
theorem step_keeps {k : ℕ} {c : Client} (hc : s.clients[k]? = some c) {e : Event}
    {o : List Output} (hstep : step toISOString port parser debug s e = .ok (s', o)) :
    ∃ c', s'.clients[k]? = some c' ∧ (c.Alive → c'.Alive ∨ c'.Late) ∧ (c.Late → c'.Late) := by
  cases e with
  | sniffer e =>
    obtain ⟨sniffed, -, hclients, rfl⟩ := step_sniffer hstep
    obtain ⟨hreached, hmissed, -⟩ := announce_spec toISOString port s.clients sniffed
    rw [hclients]
    by_cases hk : Reached s.clients k
    · rw [(hreached k hk).1, hc]
      exact ⟨_, rfl, .inl, id⟩
    · rw [(hmissed k hk).1, hc]
      exact ⟨_, rfl, .inl, id⟩
  | connect protocol filter termination =>
    obtain ⟨rfl, rfl⟩ := step_connect hstep
    have hlt := (List.getElem?_eq_some_iff.mp hc).1
    exact ⟨c, by rw [List.getElem?_append_left hlt, hc], .inl, id⟩
  | client j e =>
    obtain ⟨-, d, d', o', hd, hclient, rfl, rfl⟩ := step_client hstep
    by_cases hk : j = k
    · subst hk
      have hlt := (List.getElem?_eq_some_iff.mp hc).1
      obtain rfl : c = d := Option.some.inj (hc.symm.trans hd)
      obtain ⟨halive, hlate, -⟩ := Client.step_phase hclient
      exact ⟨d', List.getElem?_set_self hlt, halive, hlate⟩
    · exact ⟨c, by rw [List.getElem?_set_ne hk, hc], .inl, id⟩

theorem run_late {k : ℕ} {c : Client} (hc : s.clients[k]? = some c) (hlate : c.Late)
    (hrun : (machine toISOString port parser debug).run s events = .ok (s', out)) :
    ∃ c', s'.clients[k]? = some c' ∧ c'.Late := by
  induction events generalizing s c out with
  | nil =>
    cases hrun
    exact ⟨c, hc, hlate⟩
  | cons e events ih =>
    obtain ⟨u, o, o', hstep, hrest, rfl⟩ :=
      (machine toISOString port parser debug).run_cons_ok_iff.mp hrun
    obtain ⟨c', hc', -, hkeeps⟩ := step_keeps hc hstep
    exact ih hc' (hkeeps hlate) hrest

/-- What a client that is alive gets in one step: every packet or none, and none only if it is
shadowed. -/
theorem step_gets {k : ℕ} {c : Client} (hc : s.clients[k]? = some c) (halive : c.Alive) {e : Event}
    {o : List Output} (hstep : step toISOString port parser debug s e = .ok (s', o)) :
    ¬Shadowed s.clients k ∧
        Client.postedOf (seen k o) = Pcap.Sniffer.notifications (sniffed o) ∨
      Client.postedOf (seen k o) = [] ∧
        (Pcap.Sniffer.notifications (sniffed o) ≠ [] → Shadowed s.clients k) := by
  cases e with
  | sniffer e =>
    obtain ⟨o', -, -, rfl⟩ := step_sniffer hstep
    obtain ⟨hreached, hmissed, hsniffed⟩ := announce_spec toISOString port s.clients o'
    rw [hsniffed]
    by_cases hshadowed : Shadowed s.clients k
    · have hk : ¬Reached s.clients k := fun h => h.2 hshadowed
      rw [(hmissed k hk).2]
      exact .inr ⟨rfl, fun _ => hshadowed⟩
    · rw [(hreached k ⟨⟨c, hc, halive⟩, hshadowed⟩).2]
      refine .inl ⟨hshadowed, ?_⟩
      simp [Client.postedOf]
  | connect protocol filter termination =>
    obtain ⟨-, rfl⟩ := step_connect hstep
    exact .inr ⟨rfl, fun h => absurd rfl h⟩
  | client j e =>
    obtain ⟨hpacket, d, d', o', -, hclient, -, rfl⟩ := step_client hstep
    rw [sniffed_client]
    refine .inr ⟨?_, fun h => absurd rfl h⟩
    by_cases hk : j = k
    · subst hk
      rw [seen_client]
      exact step_posted hpacket hclient
    · rw [seen_client_ne hk]
      rfl

variable (toISOString port parser debug) in
/-- In a run from this state, no packet is announced while a client in front of number `k` is not
yet, or no longer, owned. -/
def Undisturbed (s : Capture τ) (events : List Event) (k : ℕ) : Prop :=
  ∀ js e, js ++ [e] <+: events → ∀ u o, (machine toISOString port parser debug).run s js =
    .ok (u, o) → ∀ v o', step toISOString port parser debug u e = .ok (v, o') →
    Pcap.Sniffer.notifications (sniffed o') ≠ [] → ¬Shadowed u.clients k

theorem undisturbed_cons {k : ℕ} {e : Event} {u : Capture τ} {o : List Output}
    (hstep : step toISOString port parser debug s e = .ok (u, o)) :
    Undisturbed toISOString port parser debug s (e :: events) k ↔
      (Pcap.Sniffer.notifications (sniffed o) ≠ [] → ¬Shadowed s.clients k) ∧
      Undisturbed toISOString port parser debug u events k := by
  constructor
  · intro h
    refine ⟨h [] e ⟨events, rfl⟩ s [] rfl u o hstep, ?_⟩
    intro js x hjs v o' hrun
    refine h (e :: js) x ?_ v (o ++ o') ?_
    · simpa using hjs
    · exact (machine toISOString port parser debug).run_cons hstep hrun
  · rintro ⟨hfirst, hrest⟩ js x hjs v o' hrun w o'' hx
    cases js with
    | nil =>
      cases hrun
      obtain rfl : x = e := by simpa using hjs
      obtain ⟨-, rfl⟩ := Prod.mk.inj (Except.ok.inj (hstep.symm.trans hx))
      exact hfirst
    | cons j js =>
      obtain ⟨rfl, hinitial⟩ : j = e ∧ js ++ [x] <+: events := by simpa using hjs
      obtain ⟨v', o₁, o₂, hj, hrun', rfl⟩ :=
        (machine toISOString port parser debug).run_cons_ok_iff.mp hrun
      obtain ⟨rfl, rfl⟩ := Prod.mk.inj (Except.ok.inj (hstep.symm.trans hj))
      exact hrest js x hinitial v o₂ hrun' w o'' hx

/-- While a client is alive it gets no packet but those that are announced, in their order, and it
gets all of them exactly if none is announced while a client that was connected before it is not
yet, or no longer, owned. -/
theorem run_gets {k : ℕ}
    (hrun : (machine toISOString port parser debug).run s events = .ok (s', out))
    (hbefore : ∃ c, s.clients[k]? = some c ∧ c.Alive)
    (hafter : ∃ c, s'.clients[k]? = some c ∧ c.Alive) :
    (Client.postedOf (seen k out)).Sublist (Pcap.Sniffer.notifications (sniffed out)) ∧
    (Client.postedOf (seen k out) = Pcap.Sniffer.notifications (sniffed out) ↔
      Undisturbed toISOString port parser debug s events k) := by
  induction events generalizing s out with
  | nil =>
    cases hrun
    refine ⟨List.Sublist.refl _, fun _ js e hjs => ?_, fun _ => rfl⟩
    simp at hjs
  | cons e events ih =>
    obtain ⟨u, o, o', hstep, hrest, rfl⟩ :=
      (machine toISOString port parser debug).run_cons_ok_iff.mp hrun
    obtain ⟨c, hc, halive⟩ := hbefore
    obtain ⟨c', hc', hphase, -⟩ := step_keeps hc hstep
    have halive' : c'.Alive := by
      rcases hphase halive with h | hlate
      · exact h
      · -- a client does not come back
        obtain ⟨d, hd, hlate'⟩ := run_late hc' hlate hrest
        obtain ⟨d', hd', halive'⟩ := hafter
        obtain rfl := Option.some.inj (hd.symm.trans hd')
        rcases halive' with h | h | h <;> simp [Client.Late, h] at hlate'
    obtain ⟨hsub, hiff⟩ := ih hrest ⟨c', hc', halive'⟩
    rw [undisturbed_cons hstep, ← hiff]
    simp only [seen_append, sniffed_append, Client.postedOf_append,
      Pcap.Sniffer.notifications_append]
    rcases step_gets hc halive hstep with ⟨hclear, hgets⟩ | ⟨hnone, hshadowed⟩
    · rw [hgets]
      exact ⟨hsub.append_left _, by simp [hclear]⟩
    · rw [hnone]
      refine ⟨hsub.trans (List.sublist_append_right _ _), ?_⟩
      constructor
      · intro heq
        have hlen := hsub.length_le
        have htotal := congrArg List.length heq
        simp only [List.length_append, List.nil_append] at htotal
        have hnothing : Pcap.Sniffer.notifications (sniffed o) = [] := by
          apply List.eq_nil_of_length_eq_zero
          omega
        rw [hnothing] at heq ⊢
        exact ⟨fun h => absurd rfl h, by simpa using heq⟩
      · rintro ⟨hclear, hrest⟩
        have hnothing : Pcap.Sniffer.notifications (sniffed o) = [] := by
          by_contra hsome
          exact hclear hsome (hshadowed hsome)
        rw [hnothing, hrest]

/-- What a client that is alive has posted, in all its life: of the packets that have been announced
since its constructor returned, all of them exactly if it has been undisturbed. -/
theorem alive_posted {offline : Bool} {t₀ : τ} {before after : List Event} {k : ℕ}
    {o o' : List Output}
    (hbefore : (machine toISOString port parser debug).run (fresh offline t₀)
      (before ++ [.client k .constructed]) = .ok (s, o))
    (hafter : (machine toISOString port parser debug).run s after = .ok (s', o'))
    {c : Client} (hc : s'.clients[k]? = some c) (halive : c.Alive) :
    (Client.postedOf (seen k (o ++ o'))).Sublist
      (parser.all s.sniffer.parser (after.flatMap readOf)).2 ∧
    (Client.postedOf (seen k (o ++ o')) =
        (parser.all s.sniffer.parser (after.flatMap readOf)).2 ↔
      Undisturbed toISOString port parser debug s after k) := by
  -- nothing has been posted before the constructor has returned
  obtain ⟨u, o₁, o₂, hearlier, hstep, rfl⟩ :=
    (machine toISOString port parser debug).run_snoc_ok_iff.mp hbefore
  have hstep : step toISOString port parser debug u (.client k .constructed) = .ok (s, o₂) := hstep
  obtain ⟨hpacket, d, d', o₃, hd, hconstructed, rfl, rfl⟩ := step_client hstep
  have hphase : d.phase = .constructing ∧ d'.phase = .created := by
    obtain ⟨v, hfire, rfl⟩ := Client.step_ok_iff.mp hconstructed
    simp only [Client.fire, Option.ite_none_right_eq_some, Option.some.injEq,
      Prod.mk.injEq] at hfire
    obtain ⟨hphase, rfl, -⟩ := hfire
    exact ⟨hphase, by simp [Client.settle]⟩
  have hnothing : Client.postedOf (seen k (o₁ ++ o₃.map (.client k))) = [] := by
    obtain ⟨protocol, filter, termination, es, -, hclient, -⟩ :=
      (run_projects hearlier).runs k d hd
    rw [seen_append, seen_client, Client.postedOf_append,
      run_constructing hclient hphase.1, step_posted hpacket hconstructed]
    rfl
  have hlt := (List.getElem?_eq_some_iff.mp hd).1
  have hgets := run_gets hafter ⟨d', List.getElem?_set_self hlt, .inl hphase.2⟩ ⟨c, hc, halive⟩
  rw [seen_append, Client.postedOf_append, hnothing, List.nil_append]
  rwa [run_notifications hafter] at hgets

/-- A client for everything on a TCP connection, which is alone and has not been started. -/
def lone (posted : List Pcap.Packet) : Client :=
  ⟨.tcp, [42], .created, true, .none, .none, true, posted, [], .fresh⟩

theorem run_lone (offline : Bool) (t : τ) :
    (machine toISOString port parser debug).run (fresh offline t)
      ([.connect .tcp [42] true] ++ [.client 0 .constructed]) =
      .ok (⟨.fresh offline t, [lone []]⟩, []) := rfl

theorem undisturbed_zero (s : Capture τ) (events : List Event) :
    Undisturbed toISOString port parser debug s events 0 := by
  intro js e hjs u o hrun v o' hstep hnotified
  rintro ⟨j, hj, -⟩
  exact absurd hj (Nat.not_lt_zero j)

theorem announce_failures (clients : List Client) (errors : List Pcap.CaptureError) :
    announce toISOString port clients (errors.map .failed) =
      (clients, errors.map fun e => .sniffer (.failed e)) := by
  induction errors with
  | nil => rfl
  | cons e errors ih =>
    rw [List.map_cons, announce, ih, List.map_cons]
    nofun

/-- The handler of its sniffer runs once, and announces one packet. -/
theorem run_lone_ready {offline : Bool} {t : τ} {now : Pcap.Timeval} {next : List Pcap.NextEx}
    {p : Pcap.Packet} (hstays : parser.stays t (Pcap.Sniffer.frames next) = true)
    (hparsed : (parser.all t (Pcap.Sniffer.frames next)).2 = [p]) :
    ∃ sniffer, ∃ errors : List Pcap.CaptureError,
      (machine toISOString port parser debug).run ⟨.fresh offline t, [lone []]⟩
        [.sniffer .complete, .sniffer (.ready none now next)] =
      .ok (⟨sniffer, [lone [p]]⟩, .sniffer (.notified p) :: .client 0 (.posted p) ::
        errors.map fun e => .sniffer (.failed e)) := by
  obtain ⟨reading, hstep, -, -⟩ := Pcap.Sniffer.step_ready parser debug
    (s := ⟨offline, .queued, t, false⟩) rfl rfl none now next hstays
  simp only [Pcap.Sniffer.read, hparsed] at hstep
  generalize Pcap.Sniffer.errors offline (.ready none now next) = errors at hstep
  have hready : (machine toISOString port parser debug).step
      ⟨⟨offline, .queued, t, false⟩, [lone []]⟩ (.sniffer (.ready none now next)) =
      .ok (⟨⟨offline, reading, (parser.all t (Pcap.Sniffer.frames next)).1, false⟩, [lone [p]]⟩,
        .sniffer (.notified p) :: .client 0 (.posted p) ::
          errors.map fun e => .sniffer (.failed e)) := by
    have hannounce : announce toISOString port [lone []] (.notified p :: errors.map .failed) =
        ([lone [p]], .sniffer (.notified p) :: .client 0 (.posted p) ::
          errors.map fun e => .sniffer (.failed e)) := by
      have hemit : emit toISOString port p 0 [lone []] =
          ([lone [p]], [.client 0 (.posted p)]) := rfl
      rw [announce, hemit, announce_failures]
      rfl
    simp only [machine, step, hstep, List.map_cons, List.map_nil, List.singleton_append,
      hannounce]
    rfl
  exact ⟨_, errors,
    Machine.run_cons (o := []) _ rfl ((machine _ _ _ _).run_singleton_ok_iff.mpr hready)⟩

end Runs
end Capture
end NetComponents.Livecapture
