import NetComponents.Livecapture.Grabber

/-!
# Sharing sniffers

`Grabber::sniffer` keeps a weak reference to the sniffer of every capture. A reference expires when
the last owner of its sniffer lets go, and stays in the map until the next call cleans it up; a
creation that throws leaves an empty one behind.
-/

namespace NetComponents.Livecapture

open Library

/-- What `createSniffer` does if it is called. -/
inductive Creation where
  | sniffer
  | null
  | throws (what : String)
  deriving DecidableEq, Repr

/-- The map `sniffers_`, in any order, with the weak references by the number of the sniffer; and
the names and numbers of owners of all the sniffers that have been created. -/
structure Sniffers where
  sniffers : List (String × Option ℕ) := []
  names : List String := []
  owners : ℕ → ℕ := fun _ => 0

namespace Sniffers

/-- A call of `sniffer`, an owner of a sniffer shares it with another one, or lets go. -/
inductive Event where
  | sniffer (capture : String) (creation : Creation)
  | share (i : ℕ)
  | release (i : ℕ)
  deriving DecidableEq, Repr

inductive Output where
  | createSniffer (name : String)
  | returned (i : ℕ)
  | failed (what : String)
  deriving DecidableEq, Repr

/-- Nobody owns the sniffer. -/
inductive Fault where
  | disabled
  deriving DecidableEq, Repr

/-- `lock()` of a weak reference -/
def lock (s : Sniffers) : Option ℕ → Option ℕ
  | none => none
  | some i => if 0 < s.owners i then some i else none

/-- `sniffers_[name]`, which makes an empty reference if there is none. -/
def touch (s : Sniffers) (name : String) : Sniffers :=
  if name ∈ s.sniffers.map Prod.fst then s else { s with sniffers := (name, none) :: s.sniffers }

/-- The reference of a name. -/
def ref (s : Sniffers) (name : String) : Option ℕ := (s.sniffers.lookup name).join

/-- `ref = ptr` -/
def assign (s : Sniffers) (name : String) (ptr : Option ℕ) : Sniffers :=
  { s with sniffers := s.sniffers.map fun e => if e.1 = name then (name, ptr) else e }

/-- One owner more -/
def own (s : Sniffers) (i : ℕ) : Sniffers :=
  { s with owners := Function.update s.owners i (s.owners i + 1) }

/-- One owner less -/
def disown (s : Sniffers) (i : ℕ) : Sniffers :=
  { s with owners := Function.update s.owners i (s.owners i - 1) }

/-- A new sniffer, with one owner. -/
def create (s : Sniffers) (name : String) : Sniffers :=
  { s with
    names := s.names ++ [name]
    owners := Function.update s.owners s.names.length 1 }

/-- The loop over the map, from an entry on. -/
def cleanup (s : Sniffers) : List (String × Option ℕ) → List (String × Option ℕ)
  | [] => []
  | e :: rest => if (s.lock e.2).isNone then cleanup s rest else e :: cleanup s rest

def clean (s : Sniffers) : Sniffers := { s with sniffers := s.cleanup s.sniffers }

/-- `Grabber::sniffer`. The pointer that it holds keeps its sniffer alive. -/
def sniffer (s : Sniffers) (capture : String) (creation : Creation) : Sniffers × List Output :=
  let sname := Grabber.cname capture
  let s := s.touch sname
  match s.lock (s.ref sname) with
  | some i => ((s.own i).clean, [.returned i])
  | none =>
    match creation with
    -- the reference is left empty or expired, and there is no clean-up
    | .throws what => (s, [.createSniffer sname, .failed what])
    | .null => ((s.assign sname none).clean,
        [.createSniffer sname, .failed ("failed to create capture '" ++ sname ++ "'.")])
    | .sniffer =>
      (((s.create sname).assign sname (some s.names.length)).clean,
        [.createSniffer sname, .returned s.names.length])

def step (s : Sniffers) : Event → Except Fault (Sniffers × List Output)
  | .sniffer capture creation => .ok (s.sniffer capture creation)
  | .share i => if s.owners i = 0 then .error .disabled else .ok (s.own i, [])
  | .release i => if s.owners i = 0 then .error .disabled else .ok (s.disown i, [])

def machine : Machine Fault Sniffers Event Output := ⟨step⟩

/-- A sniffer of the given name has an owner. -/
def Live (s : Sniffers) (i : ℕ) (name : String) : Prop := s.names[i]? = some name ∧ 0 < s.owners i

/-- A live sniffer is the one that the map has under its name; the other references have expired
or are empty. -/
structure Tracked (s : Sniffers) : Prop where
  nodup : (s.sniffers.map Prod.fst).Nodup
  named : ∀ name i, (name, some i) ∈ s.sniffers → s.names[i]? = some name
  tracked : ∀ i name, s.Live i name → (name, some i) ∈ s.sniffers

/-- There is one entry for each name that has a live sniffer, and no other entry. -/
def Exact (s : Sniffers) : Prop :=
  (s.sniffers.map Prod.fst).Nodup ∧
    ∀ name, name ∈ s.sniffers.map Prod.fst ↔ ∃ i, s.Live i name

variable {s : Sniffers}

theorem lock_eq_some {r : Option ℕ} {i : ℕ} : s.lock r = some i ↔ r = some i ∧ 0 < s.owners i := by
  cases r with
  | none => simp [lock]
  | some j =>
    simp only [lock, Option.ite_none_right_eq_some, Option.some.injEq]
    constructor
    · rintro ⟨h, rfl⟩
      exact ⟨rfl, h⟩
    · rintro ⟨rfl, h⟩
      exact ⟨h, rfl⟩

theorem cleanup_eq (l : List (String × Option ℕ)) :
    s.cleanup l = l.filter fun e => (s.lock e.2).isSome := by
  induction l with
  | nil => rfl
  | cons e l ih =>
    rw [cleanup, List.filter_cons, ih]
    cases s.lock e.2 <;> rfl

theorem mem_clean {e : String × Option ℕ} :
    e ∈ s.clean.sniffers ↔ e ∈ s.sniffers ∧ ∃ i, e.2 = some i ∧ 0 < s.owners i := by
  rw [clean, cleanup_eq, List.mem_filter, Option.isSome_iff_exists]
  simp only [lock_eq_some]

namespace Tracked

theorem unique (h : s.Tracked) {i j : ℕ} {name : String} (hi : s.Live i name)
    (hj : s.Live j name) : i = j := by
  have hsame := List.inj_on_of_nodup_map h.nodup (h.tracked i name hi) (h.tracked j name hj) rfl
  simpa using hsame

theorem touch (h : s.Tracked) (name : String) : (s.touch name).Tracked := by
  unfold Sniffers.touch
  split_ifs with hname
  · exact h
  · refine ⟨List.nodup_cons.mpr ⟨hname, h.nodup⟩, fun n i hi => ?_, fun i n hi => ?_⟩
    · refine h.named n i ?_
      simpa using hi
    · exact List.mem_cons_of_mem _ (h.tracked i n hi)

theorem expire (h : s.Tracked) {t : Sniffers} (hsniffers : t.sniffers = s.sniffers)
    (hnames : t.names = s.names) (howners : ∀ i, 0 < t.owners i → 0 < s.owners i) : t.Tracked where
  nodup := by
    rw [hsniffers]
    exact h.nodup
  named name i hi := by
    rw [hsniffers] at hi
    rw [hnames]
    exact h.named name i hi
  tracked i name hi := by
    rw [hsniffers]
    refine h.tracked i name ⟨?_, howners i hi.2⟩
    rw [← hnames]
    exact hi.1

theorem clean (h : s.Tracked) : s.clean.Tracked where
  nodup := by
    rw [Sniffers.clean, cleanup_eq]
    exact h.nodup.sublist (List.filter_sublist.map _)
  named name i hi := h.named name i (mem_clean.mp hi).1
  tracked i name hi := mem_clean.mpr ⟨h.tracked i name hi, i, rfl, hi.2⟩

theorem exact_clean (h : s.Tracked) : s.clean.Exact := by
  refine ⟨h.clean.nodup, fun name => ?_⟩
  constructor
  · intro hname
    obtain ⟨⟨n, r⟩, hmem, rfl⟩ := List.mem_map.mp hname
    obtain ⟨hmem, i, rfl, howned⟩ := mem_clean.mp hmem
    exact ⟨i, h.named n i hmem, howned⟩
  · rintro ⟨i, hi⟩
    exact List.mem_map.mpr ⟨(name, some i), h.clean.tracked i name hi, rfl⟩

end Tracked

theorem pos_of_update {f : ℕ → ℕ} {i j n : ℕ} (hi : 0 < f i)
    (hj : 0 < Function.update f i n j) : 0 < f j := by
  by_cases hji : j = i
  · rwa [hji]
  · rwa [Function.update_of_ne hji] at hj

theorem Tracked.own (h : s.Tracked) {i : ℕ} (hi : 0 < s.owners i) : (s.own i).Tracked :=
  h.expire rfl rfl fun _ hj => pos_of_update hi hj

theorem Tracked.disown (h : s.Tracked) {i : ℕ} (hi : 0 < s.owners i) : (s.disown i).Tracked :=
  h.expire rfl rfl fun _ hj => pos_of_update hi hj

theorem mem_touch (s : Sniffers) (name : String) : name ∈ (s.touch name).sniffers.map Prod.fst := by
  unfold touch
  split_ifs with hname
  · exact hname
  · exact List.mem_cons_self

theorem touch_names (s : Sniffers) (name : String) : (s.touch name).names = s.names := by
  unfold touch
  split_ifs <;> rfl

theorem touch_owners (s : Sniffers) (name : String) : (s.touch name).owners = s.owners := by
  unfold touch
  split_ifs <;> rfl

theorem live_touch {i : ℕ} {name capture : String} :
    (s.touch capture).Live i name ↔ s.Live i name := by
  rw [Live, Live, touch_names, touch_owners]

theorem lookup_eq_of_mem {l : List (String × Option ℕ)} (hl : (l.map Prod.fst).Nodup)
    {name : String} {r : Option ℕ} (h : (name, r) ∈ l) : l.lookup name = some r := by
  induction l with
  | nil => cases h
  | cons e l ih =>
    obtain ⟨n, r'⟩ := e
    rw [List.map_cons, List.nodup_cons] at hl
    rcases List.mem_cons.mp h with heq | hrest
    · cases heq
      exact List.lookup_cons_self
    · have hne : name ≠ n := by
        rintro rfl
        exact hl.1 (List.mem_map.mpr ⟨_, hrest, rfl⟩)
      rw [List.lookup_cons, beq_false_of_ne hne]
      exact ih hl.2 hrest

/-- The reference of a name is live exactly if a sniffer of this name is. -/
theorem Tracked.lock_ref (h : s.Tracked) {name : String} {i : ℕ} :
    s.lock (s.ref name) = some i ↔ s.Live i name := by
  rw [lock_eq_some]
  constructor
  · rintro ⟨href, howned⟩
    refine ⟨h.named name i ?_, howned⟩
    have hlookup : s.sniffers.lookup name = some (some i) := Option.join_eq_some_iff.mp href
    obtain ⟨l₁, l₂, hsplit, -⟩ := List.lookup_eq_some_iff.mp hlookup
    rw [hsplit]
    simp
  · intro hi
    refine ⟨?_, hi.2⟩
    rw [ref, lookup_eq_of_mem h.nodup (h.tracked i name hi)]
    rfl

theorem map_fst_assign (s : Sniffers) (name : String) (ptr : Option ℕ) :
    (s.assign name ptr).sniffers.map Prod.fst = s.sniffers.map Prod.fst := by
  rw [assign, List.map_map]
  refine List.map_congr_left fun e _ => ?_
  by_cases he : e.1 = name <;> simp [he]

theorem mem_assign {name n : String} {ptr r : Option ℕ} :
    (n, r) ∈ (s.assign name ptr).sniffers ↔
      (n ≠ name ∧ (n, r) ∈ s.sniffers) ∨
        (n = name ∧ r = ptr ∧ name ∈ s.sniffers.map Prod.fst) := by
  rw [assign, List.mem_map, List.mem_map]
  constructor
  · rintro ⟨e, he, heq⟩
    split_ifs at heq with hname
    · cases heq
      exact Or.inr ⟨rfl, rfl, e, he, hname⟩
    · subst heq
      exact Or.inl ⟨hname, he⟩
  · rintro (⟨hne, hmem⟩ | ⟨rfl, rfl, e, he, rfl⟩)
    · exact ⟨(n, r), hmem, if_neg hne⟩
    · exact ⟨e, he, if_pos rfl⟩

theorem Tracked.assign_null (h : s.Tracked) {name : String} (hdead : ∀ i, ¬ s.Live i name) :
    (s.assign name none).Tracked where
  nodup := by
    rw [map_fst_assign]
    exact h.nodup
  named n i hi := by
    rcases mem_assign.mp hi with ⟨-, hmem⟩ | ⟨-, hnull, -⟩
    · exact h.named n i hmem
    · cases hnull
  tracked i n hi := by
    have hne : n ≠ name := by
      rintro rfl
      exact hdead i hi
    exact mem_assign.mpr (Or.inl ⟨hne, h.tracked i n hi⟩)

theorem live_create {name n : String} {i : ℕ} :
    (s.create name).Live i n ↔
      (s.Live i n ∧ i < s.names.length) ∨ (i = s.names.length ∧ n = name) := by
  simp only [Live, create]
  rcases Nat.lt_trichotomy i s.names.length with hi | rfl | hi
  · simp [List.getElem?_append_left hi, hi, hi.ne]
  · simp [eq_comm]
  · have hout : (s.names ++ [name])[i]? = none := by
      rw [List.getElem?_eq_none_iff, List.length_append, List.length_singleton]
      omega
    rw [hout]
    constructor
    · rintro ⟨hnone, -⟩
      cases hnone
    · rintro (⟨-, hlt⟩ | ⟨rfl, -⟩) <;> omega

theorem Tracked.assign_create (h : s.Tracked) {name : String} (hdead : ∀ i, ¬ s.Live i name)
    (hname : name ∈ s.sniffers.map Prod.fst) :
    ((s.create name).assign name (some s.names.length)).Tracked where
  nodup := by
    rw [map_fst_assign]
    exact h.nodup
  named n i hi := by
    rcases mem_assign.mp hi with ⟨-, hmem⟩ | ⟨rfl, hnew, -⟩
    · have hold := h.named n i hmem
      have hlt : i < s.names.length := (List.getElem?_eq_some_iff.mp hold).1
      exact (List.getElem?_append_left hlt).trans hold
    · cases hnew
      exact List.getElem?_concat_length
  tracked i n hi := by
    rcases live_create.mp hi with ⟨hold, -⟩ | ⟨rfl, rfl⟩
    · have hne : n ≠ name := by
        rintro rfl
        exact hdead i hold
      exact mem_assign.mpr (Or.inl ⟨hne, h.tracked i n hold⟩)
    · exact mem_assign.mpr (Or.inr ⟨rfl, rfl, hname⟩)

section Call

variable {capture : String} {creation : Creation}

theorem sniffer_live (h : s.Tracked) {i : ℕ} (hi : s.Live i (Grabber.cname capture)) :
    s.sniffer capture creation =
      (((s.touch (Grabber.cname capture)).own i).clean, [.returned i]) := by
  have hlock := (h.touch (Grabber.cname capture)).lock_ref.mpr (live_touch.mpr hi)
  simp only [sniffer, hlock]

theorem sniffer_dead (h : s.Tracked) (hdead : ∀ i, ¬ s.Live i (Grabber.cname capture)) :
    (s.touch (Grabber.cname capture)).lock
      ((s.touch (Grabber.cname capture)).ref (Grabber.cname capture)) = none := by
  rw [Option.eq_none_iff_forall_ne_some]
  intro i hi
  exact hdead i (live_touch.mp ((h.touch _).lock_ref.mp hi))

/-- A call keeps the references right, and cleans them up when it returns a sniffer. -/
theorem sniffer_spec (h : s.Tracked) (capture : String) (creation : Creation) :
    (s.sniffer capture creation).1.Tracked ∧
      ∀ i, .returned i ∈ (s.sniffer capture creation).2 →
        (s.sniffer capture creation).1.Exact ∧
          (s.sniffer capture creation).1.Live i (Grabber.cname capture) := by
  have htouch := h.touch (Grabber.cname capture)
  by_cases hlive : ∃ i, s.Live i (Grabber.cname capture)
  · obtain ⟨i, hi⟩ := hlive
    have howned := htouch.own (live_touch.mpr hi).2
    rw [sniffer_live h hi]
    refine ⟨howned.clean, fun j hj => ?_⟩
    obtain rfl : j = i := by simpa using hj
    refine ⟨howned.exact_clean, (live_touch.mpr hi).1, ?_⟩
    simp [clean, own]
  · have hdead : ∀ i, ¬ s.Live i (Grabber.cname capture) := not_exists.mp hlive
    have hdead' : ∀ i, ¬ (s.touch (Grabber.cname capture)).Live i (Grabber.cname capture) :=
      fun i hi => hdead i (live_touch.mp hi)
    simp only [sniffer, sniffer_dead h hdead]
    cases creation with
    | throws what => exact ⟨htouch, by simp⟩
    | null => exact ⟨(htouch.assign_null hdead').clean, by simp⟩
    | sniffer =>
      have hcreated := htouch.assign_create hdead' (mem_touch s _)
      refine ⟨hcreated.clean, fun j hj => ?_⟩
      obtain rfl : j = (s.touch (Grabber.cname capture)).names.length := by simpa using hj
      exact ⟨hcreated.exact_clean, live_create.mpr (Or.inr ⟨rfl, rfl⟩)⟩

end Call

theorem step_tracked (h : s.Tracked) {e : Event} {s' : Sniffers} {out : List Output}
    (hstep : s.step e = .ok (s', out)) : s'.Tracked := by
  cases e with
  | sniffer capture creation =>
    simp only [step, Except.ok.injEq] at hstep
    have hspec := (sniffer_spec h capture creation).1
    rwa [hstep] at hspec
  | share i =>
    simp only [step] at hstep
    split_ifs at hstep with hi
    cases hstep
    exact h.own (Nat.pos_of_ne_zero hi)
  | release i =>
    simp only [step] at hstep
    split_ifs at hstep with hi
    cases hstep
    exact h.disown (Nat.pos_of_ne_zero hi)

theorem live_own {i j : ℕ} {name : String} (hi : 0 < s.owners i) :
    (s.own i).Live j name ↔ s.Live j name := by
  by_cases hji : j = i
  · subst hji
    simp [Live, own, hi]
  · simp [Live, own, hji]

theorem live_disown {i j : ℕ} {name : String} :
    (s.disown i).Live j name ↔ s.Live j name ∧ (j = i → 1 < s.owners i) := by
  by_cases hji : j = i
  · subst hji
    simp only [Live, disown, Function.update_self, forall_true_left]
    constructor
    · rintro ⟨hname, howners⟩
      exact ⟨⟨hname, by omega⟩, by omega⟩
    · rintro ⟨⟨hname, -⟩, howners⟩
      exact ⟨hname, by omega⟩
  · simp [Live, disown, hji]

/-- A call that gets no new sniffer, though there is none of the name. -/
theorem sniffer_failed (h : s.Tracked) {capture : String} {creation : Creation}
    (hdead : ∀ i, ¬s.Live i (Grabber.cname capture)) (hcreation : creation ≠ .sniffer) :
    .createSniffer (Grabber.cname capture) ∈ (s.sniffer capture creation).2 ∧
      (s.sniffer capture creation).1.names = s.names ∧
      ∀ i name, (s.sniffer capture creation).1.Live i name ↔ s.Live i name := by
  simp only [sniffer, sniffer_dead h hdead]
  cases creation with
  | throws what => exact ⟨by simp, touch_names s _, fun i name => live_touch⟩
  | null => exact ⟨by simp, touch_names s _, fun i name => live_touch⟩
  | sniffer => exact absurd rfl hcreation

/-- A call that creates a sniffer. -/
theorem sniffer_created (h : s.Tracked) {capture : String}
    (hdead : ∀ i, ¬s.Live i (Grabber.cname capture)) :
    .createSniffer (Grabber.cname capture) ∈ (s.sniffer capture .sniffer).2 ∧
      (s.sniffer capture .sniffer).1.names = s.names ++ [Grabber.cname capture] ∧
      ∀ i name, (s.sniffer capture .sniffer).1.Live i name ↔
        s.Live i name ∨ (i = s.names.length ∧ name = Grabber.cname capture) := by
  simp only [sniffer, sniffer_dead h hdead]
  refine ⟨by simp, congrArg (· ++ [_]) (touch_names s _), fun i name => ?_⟩
  refine live_create.trans ?_
  rw [live_touch, touch_names]
  constructor
  · rintro (⟨hold, -⟩ | hnew)
    · exact Or.inl hold
    · exact Or.inr hnew
  · rintro (hold | hnew)
    · exact Or.inl ⟨hold, (List.getElem?_eq_some_iff.mp hold.1).1⟩
    · exact Or.inr hnew

theorem run_tracked {events : List Event} {out : List Output}
    (h : machine.run {} events = .ok (s, out)) : s.Tracked := by
  refine machine.run_invariant (fun _ _ s => s.Tracked) ?_ ?_ h
  · intro _ _ s e s' o hs hstep
    exact step_tracked hs hstep
  · exact ⟨List.nodup_nil, by simp, by simp [Live]⟩

/-- After any calls and releases: no capture has two live sniffers, a live one is returned without
another being created, and a call that returns a sniffer leaves the entries of the live ones. -/
theorem sniffer_shared {events : List Event} {out : List Output}
    (h : machine.run {} events = .ok (s, out)) :
    (∀ name i j, s.Live i name → s.Live j name → i = j) ∧
      (∀ capture creation i, s.Live i (Grabber.cname capture) →
        ∃ s', s.step (.sniffer capture creation) = .ok (s', [.returned i])) ∧
      ∀ capture creation s' o i, s.step (.sniffer capture creation) = .ok (s', o) →
        .returned i ∈ o → s'.Exact ∧ s'.Live i (Grabber.cname capture) := by
  have htracked := run_tracked h
  refine ⟨fun name i j hi hj => htracked.unique hi hj, ?_, ?_⟩
  · intro capture creation i hi
    exact ⟨_, congrArg Except.ok (sniffer_live htracked hi)⟩
  · intro capture creation s' o i hstep hi
    simp only [step, Except.ok.injEq] at hstep
    have hspec := (sniffer_spec htracked capture creation).2 i
    rw [hstep] at hspec
    exact hspec hi

/-- A creation throws, the next one succeeds; the sniffer is asked for under its other name, and
released. -/
theorem sniffer_shared_default :
    ∃ s out, machine.run {} [.sniffer "eth0" (.throws "no device"), .sniffer "" .sniffer,
        .sniffer "default" .null, .release 0] = .ok (s, out) ∧
      (∀ name i j, s.Live i name → s.Live j name → i = j) ∧
      (∀ capture creation i, s.Live i (Grabber.cname capture) →
        ∃ s', s.step (.sniffer capture creation) = .ok (s', [.returned i])) ∧
      ∀ capture creation s' o i, s.step (.sniffer capture creation) = .ok (s', o) →
        .returned i ∈ o → s'.Exact ∧ s'.Live i (Grabber.cname capture) :=
  ⟨_, _, rfl, @sniffer_shared _ [.sniffer "eth0" (.throws "no device"), .sniffer "" .sniffer,
    .sniffer "default" .null, .release 0] _ rfl⟩

end Sniffers

end NetComponents.Livecapture
