import Mathlib.Tactic

/-!
# Listening on a port of a range

`tcp::Server` draws ports of its range at random until it can listen on one. Every try uses the same
acceptor. A try that fails behind `open` leaves it open, and `open` of an acceptor that is open
throws: no later try gets as far as `bind`.
-/

namespace NetComponents.Sockets

/-- A `boost::asio::ip::tcp::acceptor`. -/
inductive Acceptor where
  | closed
  | opened
  | bound (port : ℕ)
  | listening (port : ℕ)
  deriving DecidableEq, Repr

/-- The exceptions of `listen`. -/
inductive ListenError where
  | bad_address
  | already_open
  | open
  | reuse_address
  | bind
  | listen
  deriving DecidableEq, Repr

/-- What one try meets: the random number that is drawn, whether the operating system grants a
socket and its option, and on which ports it lets it bind and listen at that time. -/
structure Try where
  draw : ℕ
  opens : Bool
  sets : Bool
  binds : ℕ → Bool
  listens : ℕ → Bool

namespace Server

/-- `Server::port`, where the distribution makes of the number `draw` one of the range. -/
def port (rmax rmin : UInt16) (draw : ℕ) : ℕ :=
  if rmin = rmax then rmax.toNat
  else rmin.toNat + draw % (rmax.toNat - rmin.toNat + 1)

/-- `listen` on one port; `parses` tells whether `addr` is the text of an address. -/
def listenOn (parses : Bool) (t : Try) (port : ℕ) (acceptor : Acceptor) :
    Except ListenError Unit × Acceptor :=
  if parses = false then (.error .bad_address, acceptor)
  else if acceptor ≠ .closed then (.error .already_open, acceptor)
  else if t.opens = false then (.error .open, .closed)
  else if t.sets = false then (.error .reuse_address, .opened)
  else if t.binds port = false then (.error .bind, .opened)
  else if t.listens port = false then (.error .listen, .bound port)
  else (.ok (), .listening port)

/-- The order of `minport` and `maxport`; without a `maxport` the range is one port. -/
def range (minport maxport : UInt16) : UInt16 × UInt16 :=
  if minport > maxport then
    if maxport > 0 then (maxport, minport) else (minport, minport)
  else (minport, maxport)

def tries (minport maxport : UInt16) : ℕ :=
  let ntry := maxport.toNat - minport.toNat + 1
  if ntry > 5000 then 5000 else ntry

/-- The loop of `listen`, from the try `i` on. -/
def retry (parses : Bool) (env : ℕ → Try) (minport maxport : UInt16) (i : ℕ) :
    ℕ → Acceptor → Except ListenError Unit × Acceptor
  | 0, acceptor => (.ok (), acceptor)
  | ntry + 1, acceptor =>
    match listenOn parses (env i) (port maxport minport (env i).draw) acceptor with
    | (.ok (), acceptor) => (.ok (), acceptor)
    | (.error e, acceptor) =>
      if ntry = 0 then (.error e, acceptor)
      else retry parses env minport maxport (i + 1) ntry acceptor

/-- `listen` on a port of a range. -/
def listen (parses : Bool) (env : ℕ → Try) (minport maxport : UInt16) (acceptor : Acceptor) :
    Except ListenError Unit × Acceptor :=
  let r := range minport maxport
  retry parses env r.1 r.2 0 (tries r.1 r.2) acceptor

/-- The port that the try `i` chooses in the range. -/
def chosen (env : ℕ → Try) (minport maxport : UInt16) (i : ℕ) : ℕ :=
  port (range minport maxport).2 (range minport maxport).1 (env i).draw

/-- An acceptor that is closed would listen on the port. -/
def Listens (parses : Bool) (t : Try) (port : ℕ) : Prop :=
  parses = true ∧ t.opens = true ∧ t.sets = true ∧ t.binds port = true ∧ t.listens port = true

instance (parses : Bool) (t : Try) (port : ℕ) : Decidable (Listens parses t port) := by
  unfold Listens
  infer_instance

theorem range_le (minport maxport : UInt16) :
    (range minport maxport).1.toNat ≤ (range minport maxport).2.toNat := by
  unfold range
  split
  · rename_i h
    split
    · exact (UInt16.lt_iff_toNat_lt.mp h).le
    · exact le_rfl
  · rename_i h
    exact UInt16.le_iff_toNat_le.mp (UInt16.not_lt.mp h)

/-- A chosen port is one of the range. -/
theorem port_inside {rmax rmin : UInt16} (h : rmin.toNat ≤ rmax.toNat) (draw : ℕ) :
    rmin.toNat ≤ port rmax rmin draw ∧ port rmax rmin draw ≤ rmax.toNat := by
  unfold port
  split
  · exact ⟨h, le_rfl⟩
  · have hlt : draw % (rmax.toNat - rmin.toNat + 1) < rmax.toNat - rmin.toNat + 1 :=
      Nat.mod_lt _ (Nat.succ_pos _)
    omega

theorem tries_pos (minport maxport : UInt16) : 0 < tries minport maxport := by
  unfold tries
  simp only
  split
  · omega
  · omega

section Try

variable {parses : Bool} {t : Try} {port : ℕ}

theorem listenOn_of_listens (h : Listens parses t port) :
    listenOn parses t port .closed = (.ok (), .listening port) := by
  obtain ⟨hparses, hopens, hsets, hbinds, hlistens⟩ := h
  simp [listenOn, hparses, hopens, hsets, hbinds, hlistens]

/-- An acceptor that is not closed stays as it is, and the try fails. -/
theorem listenOn_of_open {acceptor : Acceptor} (h : acceptor ≠ .closed) :
    ∃ e, listenOn parses t port acceptor = (.error e, acceptor) := by
  unfold listenOn
  rw [if_pos h]
  split
  · exact ⟨_, rfl⟩
  · exact ⟨_, rfl⟩

/-- Another try fails, and leaves the acceptor closed only if it has not got a socket. -/
theorem listenOn_of_not_listens (h : ¬Listens parses t port) :
    ∃ e acceptor, listenOn parses t port .closed = (.error e, acceptor) ∧
      (acceptor = .closed ↔ ¬(parses = true ∧ t.opens = true)) := by
  unfold listenOn
  split
  · rename_i hparses
    exact ⟨_, _, rfl, by simp [hparses]⟩
  · rename_i hparses
    rw [if_neg (by simp)]
    split
    · rename_i hopens
      exact ⟨_, _, rfl, by simp [hopens]⟩
    · rename_i hopens
      split
      · exact ⟨_, _, rfl, by simp [hparses, hopens]⟩
      · rename_i hsets
        split
        · exact ⟨_, _, rfl, by simp [hparses, hopens]⟩
        · rename_i hbinds
          rw [if_pos (by simp_all [Listens])]
          exact ⟨_, _, rfl, by simp [hparses, hopens]⟩

end Try

section Retry

variable {parses : Bool} {env : ℕ → Try} {minport maxport : UInt16} {i ntry : ℕ}

/-- Once the acceptor is open, no try succeeds. -/
theorem retry_of_open {acceptor a : Acceptor} (h : acceptor ≠ .closed) (hntry : 0 < ntry) :
    retry parses env minport maxport i ntry acceptor ≠ (.ok (), a) := by
  induction ntry generalizing i with
  | zero => omega
  | succ ntry ih =>
    obtain ⟨e, hfirst⟩ := listenOn_of_open h
    rw [retry, hfirst]
    by_cases hlast : ntry = 0
    · simp [hlast]
    · simp only [if_neg hlast]
      exact ih (by omega)

variable (parses env minport maxport) in
/-- Of the tries from `i` on, `k` is the number of the first that gets a socket, and it listens. -/
def FirstListens (i k : ℕ) : Prop :=
  Listens parses (env (i + k)) (port maxport minport (env (i + k)).draw) ∧
    ∀ j < k, (env (i + j)).opens = false

theorem firstListens_zero :
    FirstListens parses env minport maxport i 0 ↔
      Listens parses (env i) (port maxport minport (env i).draw) := by
  simp [FirstListens]

theorem firstListens_succ {k : ℕ} :
    FirstListens parses env minport maxport i (k + 1) ↔
      (env i).opens = false ∧ FirstListens parses env minport maxport (i + 1) k := by
  have hnext : ∀ j, i + 1 + j = i + (j + 1) := fun j => by omega
  simp only [FirstListens, hnext]
  constructor
  · rintro ⟨hlistens, hearlier⟩
    exact ⟨hearlier 0 (by omega), hlistens, fun j hj => hearlier (j + 1) (by omega)⟩
  · rintro ⟨hfirst, hlistens, hearlier⟩
    refine ⟨hlistens, ?_⟩
    intro j hj
    cases j with
    | zero => exact hfirst
    | succ j => exact hearlier j (by omega)

/-- The loop ends with success exactly if the first try that gets a socket listens. -/
theorem retry_ok_iff (hntry : 0 < ntry) {p : ℕ} :
    retry parses env minport maxport i ntry .closed = (.ok (), .listening p) ↔
      ∃ k < ntry, FirstListens parses env minport maxport i k ∧
        p = port maxport minport (env (i + k)).draw := by
  induction ntry generalizing i with
  | zero => omega
  | succ ntry ih =>
    have hnext : ∀ k, i + 1 + k = i + (k + 1) := fun k => by omega
    rw [retry]
    by_cases hlistens : Listens parses (env i) (port maxport minport (env i).draw)
    · rw [listenOn_of_listens hlistens]
      constructor
      · intro h
        cases h
        exact ⟨0, by omega, firstListens_zero.mpr hlistens, rfl⟩
      · rintro ⟨k, -, hfirst, rfl⟩
        cases k with
        | zero => rfl
        | succ k =>
          have hopens := (firstListens_succ.mp hfirst).1
          rw [hlistens.2.1] at hopens
          cases hopens
    · obtain ⟨e, acceptor, hfirst, hclosed⟩ := listenOn_of_not_listens hlistens
      rw [hfirst]
      constructor
      · intro h
        by_cases hlast : ntry = 0
        · simp [hlast] at h
        · simp only [if_neg hlast] at h
          by_cases hopen : acceptor = .closed
          · subst hopen
            obtain ⟨k, hk, hk', rfl⟩ := (ih (by omega)).mp h
            have hopens : (env i).opens = false := by
              have hnot := hclosed.mp rfl
              simpa [hk'.1.1] using hnot
            exact ⟨k + 1, by omega, firstListens_succ.mpr ⟨hopens, hk'⟩, by rw [hnext]⟩
          · exact absurd h (retry_of_open hopen (by omega))
      · rintro ⟨k, hk, hk', rfl⟩
        cases k with
        | zero => exact absurd (firstListens_zero.mp hk') hlistens
        | succ k =>
          obtain ⟨hopens, hlater⟩ := firstListens_succ.mp hk'
          obtain rfl : acceptor = .closed := hclosed.mpr (by simp [hopens])
          simp only [if_neg (by omega : ¬ntry = 0)]
          exact (ih (by omega)).mpr ⟨k, by omega, hlater, by rw [hnext]⟩

end Retry

/-- If one of the tries can listen, the call listens on such a port of the range: exactly then when
no try can, or the first that gets a socket can. -/
theorem listen_finds_port_iff (parses : Bool) (env : ℕ → Try) (minport maxport : UInt16) :
    ((∃ i < tries (range minport maxport).1 (range minport maxport).2,
        Listens parses (env i) (chosen env minport maxport i)) →
      ∃ p, listen parses env minport maxport .closed = (.ok (), .listening p) ∧
        (range minport maxport).1.toNat ≤ p ∧ p ≤ (range minport maxport).2.toNat ∧
        ∃ i < tries (range minport maxport).1 (range minport maxport).2,
          chosen env minport maxport i = p ∧ Listens parses (env i) p) ↔
      (∀ i < tries (range minport maxport).1 (range minport maxport).2,
        ¬Listens parses (env i) (chosen env minport maxport i)) ∨
      ∃ k < tries (range minport maxport).1 (range minport maxport).2,
        Listens parses (env k) (chosen env minport maxport k) ∧ ∀ j < k, (env j).opens = false := by
  have hok : ∀ p, listen parses env minport maxport .closed = (.ok (), .listening p) ↔
      ∃ k < tries (range minport maxport).1 (range minport maxport).2,
        (Listens parses (env k) (chosen env minport maxport k) ∧ ∀ j < k, (env j).opens = false) ∧
        p = chosen env minport maxport k := by
    intro p
    simp only [listen]
    rw [retry_ok_iff (tries_pos _ _)]
    simp only [FirstListens, Nat.zero_add, chosen]
  constructor
  · intro hclaim
    by_cases hsome : ∃ i < tries (range minport maxport).1 (range minport maxport).2,
        Listens parses (env i) (chosen env minport maxport i)
    · obtain ⟨p, hlisten, -⟩ := hclaim hsome
      obtain ⟨k, hk, hfirst, -⟩ := (hok p).mp hlisten
      exact .inr ⟨k, hk, hfirst⟩
    · exact .inl fun i hi hlistens => hsome ⟨i, hi, hlistens⟩
  · rintro (hnone | ⟨k, hk, hlistens, hearlier⟩)
    · rintro ⟨i, hi, hlistens⟩
      exact absurd hlistens (hnone i hi)
    · intro _
      have hinside := port_inside (range_le minport maxport) (env k).draw
      exact ⟨_, (hok _).mpr ⟨k, hk, ⟨hlistens, hearlier⟩, rfl⟩, hinside.1, hinside.2, k, hk, rfl,
        hlistens⟩

/-- Two ports, of which the first choice is in use. -/
theorem listen_misses_port :
    ¬∀ (parses : Bool) (env : ℕ → Try) (minport maxport : UInt16),
      (∃ i < tries (range minport maxport).1 (range minport maxport).2,
        Listens parses (env i) (chosen env minport maxport i)) →
      ∃ p, listen parses env minport maxport .closed = (.ok (), .listening p) := by
  intro hall
  obtain ⟨p, hlisten⟩ := hall true
    (fun i => ⟨i, true, true, fun port => port ≠ 1000, fun _ => true⟩) 1000 1001
    ⟨1, by decide, by decide⟩
  have hfail : listen true (fun i => ⟨i, true, true, fun port => port ≠ 1000, fun _ => true⟩)
      1000 1001 .closed = (.error .already_open, .opened) := by decide
  cases hfail.symm.trans hlisten

end Server

end NetComponents.Sockets
