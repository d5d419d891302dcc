import Mathlib.Tactic

/-!
# Deterministic machines with output

A machine consumes inputs one at a time; each step either fails or yields the
next state and a list of outputs. Whatever the environment chooses (what
arrives, how a call ends) is part of the input, so a run is determined by its
inputs. The rules below are the ones a verification uses:
`run_invariant` lifts a fact about one step to whole runs, `run_total` shows
that no step fails, `run_always_iff` gives the exact condition for a property of
every state reached, `run_residual` compares an incremental decoder with one
that sees the whole stream, `run_simulation` transfers runs between machines,
`run_unwinding` compares a run with one from which inputs are erased, and
`family_run` separates the interleaved runs of independent instances.
-/

namespace NetComponents.Library

/-- A step function with states `σ`, inputs `ι`, outputs `ω` and failures `ε`. -/
structure Machine (ε σ ι ω : Type*) where
  step : σ → ι → Except ε (σ × List ω)

namespace Machine

variable {ε σ ι ω : Type*} (m : Machine ε σ ι ω)

/-- Consume a list of inputs, collecting the outputs in order. -/
def run : σ → List ι → Except ε (σ × List ω)
  | s, [] => .ok (s, [])
  | s, i :: is =>
    match m.step s i with
    | .error e => .error e
    | .ok (s', out) =>
      match run s' is with
      | .error e => .error e
      | .ok (t, rest) => .ok (t, out ++ rest)

@[simp] theorem run_nil (s : σ) : m.run s [] = .ok (s, []) := rfl

theorem run_cons_ok_iff {s t : σ} {i : ι} {is : List ι} {out : List ω} :
    m.run s (i :: is) = .ok (t, out) ↔
      ∃ s' o o', m.step s i = .ok (s', o) ∧ m.run s' is = .ok (t, o') ∧ out = o ++ o' := by
  constructor
  · intro h
    rw [run] at h
    cases hstep : m.step s i with
    | error e => simp [hstep] at h
    | ok r =>
      obtain ⟨s', o⟩ := r
      cases hrun : m.run s' is with
      | error e => simp [hstep, hrun] at h
      | ok r =>
        obtain ⟨t', o'⟩ := r
        simp only [hstep, hrun, Except.ok.injEq, Prod.mk.injEq] at h
        obtain ⟨rfl, rfl⟩ := h
        exact ⟨s', o, o', rfl, hrun, rfl⟩
  · rintro ⟨s', o, o', hstep, hrun, rfl⟩
    simp [run, hstep, hrun]

theorem run_cons {s s' t : σ} {i : ι} {is : List ι} {o o' : List ω}
    (hstep : m.step s i = .ok (s', o)) (hrun : m.run s' is = .ok (t, o')) :
    m.run s (i :: is) = .ok (t, o ++ o') :=
  m.run_cons_ok_iff.mpr ⟨s', o, o', hstep, hrun, rfl⟩

@[simp] theorem run_singleton_ok_iff {s t : σ} {i : ι} {out : List ω} :
    m.run s [i] = .ok (t, out) ↔ m.step s i = .ok (t, out) := by
  rw [run_cons_ok_iff]
  constructor
  · rintro ⟨s', o, o', hstep, hrun, rfl⟩
    cases hrun
    simpa using hstep
  · intro hstep
    exact ⟨t, out, [], hstep, rfl, by simp⟩

theorem run_append_ok_iff {s u : σ} {is js : List ι} {out : List ω} :
    m.run s (is ++ js) = .ok (u, out) ↔
      ∃ t o o', m.run s is = .ok (t, o) ∧ m.run t js = .ok (u, o') ∧ out = o ++ o' := by
  induction is generalizing s out with
  | nil => simp
  | cons i is ih =>
    rw [List.cons_append, run_cons_ok_iff]
    constructor
    · rintro ⟨s', o, rest, hstep, hrun, rfl⟩
      obtain ⟨t, o₁, o₂, h₁, h₂, rfl⟩ := ih.mp hrun
      exact ⟨t, o ++ o₁, o₂, m.run_cons hstep h₁, h₂, by simp⟩
    · rintro ⟨t, o₁, o₂, h₁, h₂, rfl⟩
      obtain ⟨s', o, o', hstep, hrun, rfl⟩ := m.run_cons_ok_iff.mp h₁
      exact ⟨s', o, o' ++ o₂, hstep, ih.mpr ⟨t, o', o₂, hrun, h₂, rfl⟩, by simp⟩

theorem run_append {s t u : σ} {is js : List ι} {o o' : List ω}
    (h₁ : m.run s is = .ok (t, o)) (h₂ : m.run t js = .ok (u, o')) :
    m.run s (is ++ js) = .ok (u, o ++ o') :=
  m.run_append_ok_iff.mpr ⟨t, o, o', h₁, h₂, rfl⟩

/-- One more input at the end of a run. -/
theorem run_snoc {s t u : σ} {is : List ι} {i : ι} {o o' : List ω}
    (hrun : m.run s is = .ok (t, o)) (hstep : m.step t i = .ok (u, o')) :
    m.run s (is ++ [i]) = .ok (u, o ++ o') :=
  m.run_append hrun (m.run_singleton_ok_iff.mpr hstep)

theorem run_snoc_ok_iff {s u : σ} {is : List ι} {i : ι} {out : List ω} :
    m.run s (is ++ [i]) = .ok (u, out) ↔
      ∃ t o o', m.run s is = .ok (t, o) ∧ m.step t i = .ok (u, o') ∧ out = o ++ o' := by
  rw [run_append_ok_iff]
  simp only [run_singleton_ok_iff]

theorem run_error_append {s : σ} {is : List ι} {e : ε} (h : m.run s is = .error e)
    (js : List ι) : m.run s (is ++ js) = .error e := by
  induction is generalizing s with
  | nil => cases h
  | cons i is ih =>
    cases hstep : m.step s i with
    | error e' => simpa [run, hstep] using h
    | ok r =>
      obtain ⟨s', o⟩ := r
      cases hrun : m.run s' is with
      | error e' =>
        obtain rfl : e' = e := by simpa [run, hstep, hrun] using h
        simp [run, hstep, ih hrun]
      | ok r => simp [run, hstep, hrun] at h

theorem run_append_error {s t : σ} {is js : List ι} {o : List ω} {e : ε}
    (h₁ : m.run s is = .ok (t, o)) (h₂ : m.run t js = .error e) :
    m.run s (is ++ js) = .error e := by
  induction is generalizing s o with
  | nil =>
    cases h₁
    exact h₂
  | cons i is ih =>
    obtain ⟨s', o₁, o₂, hstep, hrun, rfl⟩ := m.run_cons_ok_iff.mp h₁
    simp [run, hstep, ih hrun]

/-- A run fails at the step that fails. -/
theorem run_error_iff {s : σ} {is : List ι} {e : ε} :
    m.run s is = .error e ↔
      ∃ js i, js ++ [i] <+: is ∧ ∃ t out, m.run s js = .ok (t, out) ∧ m.step t i = .error e := by
  constructor
  · intro h
    induction is using List.reverseRecOn with
    | nil => cases h
    | append_singleton is i ih =>
      cases hrun : m.run s is with
      | error e' =>
        cases (m.run_error_append hrun [i]).symm.trans h
        obtain ⟨js, j, hjs, hstep⟩ := ih hrun
        exact ⟨js, j, hjs.trans (List.prefix_append _ _), hstep⟩
      | ok r =>
        refine ⟨is, i, List.prefix_rfl, r.1, r.2, hrun, ?_⟩
        cases hstep : m.step r.1 i with
        | error e' =>
          have hlast : m.run s (is ++ [i]) = .error e' :=
            m.run_append_error hrun (by simp [run, hstep])
          cases hlast.symm.trans h
          rfl
        | ok r' =>
          cases (m.run_snoc hrun hstep).symm.trans h
  · rintro ⟨js, i, ⟨ks, rfl⟩, t, out, hrun, hstep⟩
    exact m.run_error_append (m.run_append_error hrun (by simp [run, hstep])) ks

/-- What holds at the start and survives a step holds after every run. The
property may speak of the inputs consumed and the outputs produced so far. -/
theorem run_invariant (P : List ι → List ω → σ → Prop)
    (hstep : ∀ is out s i s' o, P is out s → m.step s i = .ok (s', o) →
      P (is ++ [i]) (out ++ o) s')
    {s t : σ} {is : List ι} {out : List ω} (h₀ : P [] [] s)
    (hrun : m.run s is = .ok (t, out)) : P is out t := by
  have aux : ∀ (js : List ι) (is₀ : List ι) (out₀ o : List ω) (s : σ), P is₀ out₀ s →
      m.run s js = .ok (t, o) → P (is₀ ++ js) (out₀ ++ o) t := by
    intro js
    induction js with
    | nil =>
      intro is₀ out₀ o s h hrun
      cases hrun
      simpa using h
    | cons j js ih =>
      intro is₀ out₀ o s h hrun
      obtain ⟨s', o₁, o₂, h₁, h₂, rfl⟩ := m.run_cons_ok_iff.mp hrun
      have := ih (is₀ ++ [j]) (out₀ ++ o₁) o₂ s' (hstep _ _ _ _ _ _ h h₁) h₂
      simpa using this
  simpa using aux is [] [] out s h₀ hrun

/-- If an invariant rules out failing steps, every run completes and keeps it. -/
theorem run_total (P : σ → Prop) (Q : ι → Prop)
    (hstep : ∀ s i, P s → Q i → ∃ s' o, m.step s i = .ok (s', o) ∧ P s')
    {s : σ} (is : List ι) (h₀ : P s) (hin : ∀ i ∈ is, Q i) :
    ∃ t out, m.run s is = .ok (t, out) ∧ P t := by
  induction is generalizing s with
  | nil => exact ⟨s, [], rfl, h₀⟩
  | cons i is ih =>
    obtain ⟨s', o, h₁, hs'⟩ := hstep s i h₀ (hin i (by simp))
    obtain ⟨t, o', h₂, ht⟩ := ih hs' (fun j hj => hin j (by simp [hj]))
    exact ⟨t, o ++ o', m.run_cons h₁ h₂, ht⟩

/-- An invariant that a step either keeps or fails on in an expected way. -/
theorem run_outcome (P : List ι → List ω → σ → Prop) (Q : ι → Prop) (E : ε → Prop)
    (hstep : ∀ is out s i, P is out s → Q i →
      (∃ s' o, m.step s i = .ok (s', o) ∧ P (is ++ [i]) (out ++ o) s') ∨
      ∃ e, m.step s i = .error e ∧ E e)
    {s : σ} {is : List ι} (h₀ : P [] [] s) (hin : ∀ i ∈ is, Q i) :
    (∃ t out, m.run s is = .ok (t, out) ∧ P is out t) ∨ ∃ e, m.run s is = .error e ∧ E e := by
  induction is using List.reverseRecOn with
  | nil => exact .inl ⟨s, [], rfl, h₀⟩
  | append_singleton is i ih =>
    rcases ih (fun j hj => hin j (by simp [hj])) with ⟨t, out, hrun, ht⟩ | ⟨e, hrun, he⟩
    · rcases hstep is out t i ht (hin i (by simp)) with ⟨t', o, h₁, ht'⟩ | ⟨e, h₁, he⟩
      · exact .inl ⟨t', out ++ o, m.run_snoc hrun h₁, ht'⟩
      · exact .inr ⟨e, m.run_append_error hrun (by simp [run, h₁]), he⟩
    · exact .inr ⟨e, m.run_error_append hrun [i], he⟩

/-- Every prefix of a completed run is a completed run. -/
theorem run_initial {s t : σ} {is js : List ι} {out : List ω} (h : js <+: is)
    (hrun : m.run s is = .ok (t, out)) :
    ∃ u o, m.run s js = .ok (u, o) ∧ o <+: out := by
  obtain ⟨ks, rfl⟩ := h
  obtain ⟨u, o, o', h₁, -, rfl⟩ := m.run_append_ok_iff.mp hrun
  exact ⟨u, o, h₁, List.prefix_append _ _⟩

/-- What a step keeps whenever it meets a condition holds in every state of a run
whose steps all meet it. -/
theorem run_keeps (P : List ι → List ω → σ → Prop) (C : List ι → σ → ι → Prop)
    (hstep : ∀ is out s i s' o, P is out s → C is s i → m.step s i = .ok (s', o) →
      P (is ++ [i]) (out ++ o) s')
    {s : σ} {is : List ι} (h₀ : P [] [] s)
    (hcond : ∀ js i, js ++ [i] <+: is → ∀ t out, m.run s js = .ok (t, out) → C js t i)
    {js : List ι} (hjs : js <+: is) {t : σ} {out : List ω} (hrun : m.run s js = .ok (t, out)) :
    P js out t := by
  induction js using List.reverseRecOn generalizing t out with
  | nil =>
    cases hrun
    exact h₀
  | append_singleton js i ih =>
    obtain ⟨u, o, o', h₁, h₂, rfl⟩ := m.run_snoc_ok_iff.mp hrun
    have hu := ih ((List.prefix_append _ _).trans hjs) h₁
    exact hstep _ _ _ _ _ _ hu (hcond js i hjs u o h₁) h₂

/-- The exact condition for a property of every state that a run reaches: a step that meets it
keeps the invariant behind the property, and a step that does not breaks the property. -/
theorem run_always_iff (I P : List ι → List ω → σ → Prop) (C : List ι → σ → ι → Prop)
    (hproperty : ∀ is out s, I is out s → P is out s)
    (hkeep : ∀ is out s i s' o, I is out s → C is s i → m.step s i = .ok (s', o) →
      I (is ++ [i]) (out ++ o) s')
    (hbreak : ∀ is out s i s' o, I is out s → ¬C is s i → m.step s i = .ok (s', o) →
      ¬P (is ++ [i]) (out ++ o) s')
    {s t : σ} {is : List ι} {out : List ω} (h₀ : I [] [] s) (hrun : m.run s is = .ok (t, out)) :
    (∀ js, js <+: is → ∀ u o, m.run s js = .ok (u, o) → P js o u) ↔
      ∀ js i, js ++ [i] <+: is → ∀ u o, m.run s js = .ok (u, o) → C js u i := by
  constructor
  · intro hP
    -- a step with the invariant before it meets the condition, as the property survives it
    have hcond : ∀ js i, js ++ [i] <+: is → ∀ u o, m.run s js = .ok (u, o) → I js o u →
        C js u i := by
      intro js i hjs u o hu hI
      by_contra hC
      obtain ⟨v, o', hnext, -⟩ := m.run_initial hjs hrun
      obtain ⟨w, o₁, o₂, h₁, hstep, rfl⟩ := m.run_snoc_ok_iff.mp hnext
      cases hu.symm.trans h₁
      exact hbreak _ _ _ _ _ _ hI hC hstep (hP _ hjs _ _ hnext)
    have hinv : ∀ js, js <+: is → ∀ u o, m.run s js = .ok (u, o) → I js o u := by
      intro js
      induction js using List.reverseRecOn with
      | nil =>
        intro _ u o hu
        cases hu
        exact h₀
      | append_singleton js i ih =>
        intro hjs u o hu
        obtain ⟨w, o₁, o₂, h₁, hstep, rfl⟩ := m.run_snoc_ok_iff.mp hu
        have hw := ih ((List.prefix_append _ _).trans hjs) w o₁ h₁
        exact hkeep _ _ _ _ _ _ hw (hcond js i hjs w o₁ h₁ hw) hstep
    intro js i hjs u o hu
    exact hcond js i hjs u o hu (hinv js ((List.prefix_append _ _).trans hjs) u o hu)
  · intro hC js hjs u o hu
    exact hproperty _ _ _ (m.run_keeps I C hkeep h₀ hC hjs hu)

/-- A condition on the inputs alone may be asked of the whole list. -/
theorem run_inputs_iff (C : ι → Prop) {s t : σ} {is : List ι} {out : List ω}
    (hrun : m.run s is = .ok (t, out)) :
    (∀ js i, js ++ [i] <+: is → ∀ u o, m.run s js = .ok (u, o) → C i) ↔ ∀ i ∈ is, C i := by
  constructor
  · intro h i hi
    obtain ⟨js, ks, rfl⟩ := List.append_of_mem hi
    obtain ⟨u, o, hu, -⟩ := m.run_initial (List.prefix_append js (i :: ks)) hrun
    exact h js i ⟨ks, by simp⟩ u o hu
  · intro h js i hjs u o _
    exact h i (hjs.subset (by simp))

section Residual

variable {β γ : Type*} (bytes : ι → List β) (F : σ → List β → List ω × γ)

/-- Incremental decoding. `F s rest` is what the state `s` still has to produce
when `rest` follows. If one step produces its share of this for any
continuation, so does a run, wherever the stream was cut. -/
theorem run_residual (P : σ → Prop)
    (hstep : ∀ s i, P s → ∃ s' o, m.step s i = .ok (s', o) ∧ P s' ∧
      ∀ rest, F s (bytes i ++ rest) = (o ++ (F s' rest).1, (F s' rest).2))
    {s : σ} (is : List ι) (h₀ : P s) :
    ∃ t out, m.run s is = .ok (t, out) ∧ P t ∧
      ∀ rest, F s (is.flatMap bytes ++ rest) = (out ++ (F t rest).1, (F t rest).2) := by
  induction is generalizing s with
  | nil => exact ⟨s, [], rfl, h₀, fun rest => by simp⟩
  | cons i is ih =>
    obtain ⟨s', o, h₁, hs', hF⟩ := hstep s i h₀
    obtain ⟨t, o', h₂, ht, hF'⟩ := ih hs'
    refine ⟨t, o ++ o', m.run_cons h₁ h₂, ht, ?_⟩
    intro rest
    rw [List.flatMap_cons, List.append_assoc, hF, hF']
    simp

end Residual

section Simulation

variable {σ' ι' ω' : Type*} (n : Machine ε σ' ι' ω')

/-- A step-by-step simulation of `n` by `m`, which reads the same inputs in its
own encoding `f` and shows the same outputs in its own encoding `g`. -/
theorem run_simulation (R : σ → σ' → Prop) (f : ι' → ι) (g : ω' → ω)
    (hstep : ∀ s s' i t' o, R s s' → n.step s' i = .ok (t', o) →
      ∃ t, m.step s (f i) = .ok (t, o.map g) ∧ R t t')
    {s : σ} {s' t' : σ'} {is : List ι'} {o : List ω'} (h₀ : R s s')
    (hrun : n.run s' is = .ok (t', o)) :
    ∃ t, m.run s (is.map f) = .ok (t, o.map g) ∧ R t t' := by
  induction is generalizing s s' o with
  | nil =>
    cases hrun
    exact ⟨s, rfl, h₀⟩
  | cons i is ih =>
    obtain ⟨u', o₁, o₂, h₁, h₂, rfl⟩ := n.run_cons_ok_iff.mp hrun
    obtain ⟨u, hu, hR⟩ := hstep s s' i u' o₁ h₀ h₁
    obtain ⟨t, ht, hR'⟩ := ih hR h₂
    exact ⟨t, by simpa using m.run_cons hu ht, hR'⟩

end Simulation

section Unwinding

variable {α : Type*} (R : σ → σ → Prop) (view : List ω → List α)

/-- Two computations fail alike, or end in related states and show the same to `view`. -/
def SameView : Except ε (σ × List ω) → Except ε (σ × List ω) → Prop
  | .ok (s, out), .ok (s', out') => R s s' ∧ view out = view out'
  | .error e, .error e' => e = e'
  | _, _ => False

variable {R view}

theorem SameView.map_eq {x y : Except ε (σ × List ω)} (h : SameView R view x y) :
    x.map (fun r => view r.2) = y.map (fun r => view r.2) := by
  cases x with
  | error e =>
    cases y with
    | error e' => exact congrArg Except.error h
    | ok r => exact h.elim
  | ok r =>
    cases y with
    | error e => exact h.elim
    | ok r' => exact congrArg Except.ok h.2

/-- Unwinding: if each input and what `erase` leaves of it do the same to related states, as far
as `view` tells, then so do the whole list of inputs and what is left of it. -/
theorem run_unwinding (hview : ∀ out o, view (out ++ o) = view out ++ view o)
    (erase : ι → ι) (C : σ → ι → Prop)
    (hstep : ∀ s s' i, R s s' → C s i → SameView R view (m.step s i) (m.step s' (erase i)))
    {s s' : σ} {is : List ι} (hR : R s s')
    (hcond : ∀ js i, js ++ [i] <+: is → ∀ t out, m.run s js = .ok (t, out) → C t i) :
    SameView R view (m.run s is) (m.run s' (is.map erase)) := by
  induction is generalizing s s' with
  | nil => exact ⟨hR, rfl⟩
  | cons i is ih =>
    have hfirst := hstep s s' i hR (hcond [] i ⟨is, rfl⟩ s [] rfl)
    rw [List.map_cons, run, run]
    cases h : m.step s i with
    | error e =>
      cases h' : m.step s' (erase i) with
      | error e' => simpa [h, h'] using hfirst
      | ok r => simp [SameView, h, h'] at hfirst
    | ok r =>
      cases h' : m.step s' (erase i) with
      | error e => simp [SameView, h, h'] at hfirst
      | ok r' =>
        rw [h, h'] at hfirst
        have hrest := ih hfirst.1 (by
          intro js j hjs t out hrun
          refine hcond (i :: js) j ?_ t _ (m.run_cons h hrun)
          simpa using hjs)
        cases hrun : m.run r.1 is with
        | error e =>
          cases hrun' : m.run r'.1 (is.map erase) with
          | error e' => simpa [hrun, hrun'] using hrest
          | ok u => simp [SameView, hrun, hrun'] at hrest
        | ok u =>
          cases hrun' : m.run r'.1 (is.map erase) with
          | error e => simp [SameView, hrun, hrun'] at hrest
          | ok u' =>
            rw [hrun, hrun'] at hrest
            have hboth : view (r.2 ++ u.2) = view (r'.2 ++ u'.2) := by
              rw [hview, hview, hfirst.2, hrest.2]
            have hsame : SameView R view (.ok (u.1, r.2 ++ u.2) : Except ε (σ × List ω))
                (.ok (u'.1, r'.2 ++ u'.2)) := ⟨hrest.1, hboth⟩
            simpa only [hrun, hrun'] using hsame

end Unwinding

section Instances

variable {α : Type*} (q : α → Bool)

/-- Among a list of instances, a step of one changes a count by that one alone. -/
theorem countP_set_add {l : List α} {i : ℕ} {a : α} (h : l[i]? = some a) (b : α) :
    (l.set i b).countP q + (if q a then 1 else 0) = l.countP q + if q b then 1 else 0 := by
  obtain ⟨hlt, hget⟩ := List.getElem?_eq_some_iff.mp h
  have hle : (if q l[i] = true then 1 else 0) ≤ l.countP q := List.boole_getElem_le_countP hlt
  rw [List.countP_set hlt]
  rw [hget] at hle ⊢
  omega

theorem countP_pos_of_getElem? {l : List α} {i : ℕ} {a : α} (h : l[i]? = some a)
    (hq : q a = true) : 0 < l.countP q :=
  List.countP_pos_iff.mpr ⟨a, List.mem_of_getElem? h, hq⟩

end Instances

section Family

variable {κ : Type*} [DecidableEq κ]

/-- One instance of a machine for each key, driven by tagged inputs. -/
def family : Machine ε (κ → σ) (κ × ι) (κ × ω) where
  step S i :=
    match m.step (S i.1) i.2 with
    | .error e => .error e
    | .ok (s', o) => .ok (Function.update S i.1 s', o.map (Prod.mk i.1))

/-- The entries of one key, in order. -/
def project {α : Type*} (k : κ) (xs : List (κ × α)) : List α :=
  xs.filterMap fun x => if x.1 = k then some x.2 else none

theorem project_append {α : Type*} (k : κ) (xs ys : List (κ × α)) :
    project k (xs ++ ys) = project k xs ++ project k ys :=
  List.filterMap_append

theorem project_cons_self {α : Type*} (k : κ) (a : α) (xs : List (κ × α)) :
    project k ((k, a) :: xs) = a :: project k xs := by
  simp [project]

theorem project_cons_ne {α : Type*} {k j : κ} (h : j ≠ k) (a : α) (xs : List (κ × α)) :
    project k ((j, a) :: xs) = project k xs := by
  simp [project, h]

theorem project_map_self {α : Type*} (k : κ) (xs : List α) :
    project k (xs.map (Prod.mk k)) = xs := by
  induction xs with
  | nil => rfl
  | cons a xs ih => rw [List.map_cons, project_cons_self, ih]

theorem project_map_ne {α : Type*} {k j : κ} (h : j ≠ k) (xs : List α) :
    project k (xs.map (Prod.mk j)) = [] := by
  induction xs with
  | nil => rfl
  | cons a xs ih => rw [List.map_cons, project_cons_ne h, ih]

/-- Non-interference: if every instance completes on its own inputs, then the
interleaved run completes and is, key by key, the run of that instance. -/
theorem family_run {S : κ → σ} (is : List (κ × ι))
    (h : ∀ k, ∃ t o, m.run (S k) (project k is) = .ok (t, o)) :
    ∃ T out, m.family.run S is = .ok (T, out) ∧
      ∀ k, m.run (S k) (project k is) = .ok (T k, project k out) := by
  induction is generalizing S with
  | nil => exact ⟨S, [], rfl, fun k => rfl⟩
  | cons i is ih =>
    obtain ⟨j, a⟩ := i
    obtain ⟨t, o, hj⟩ := h j
    rw [project_cons_self, run_cons_ok_iff] at hj
    obtain ⟨s', o₁, o₂, hstep, hrest, rfl⟩ := hj
    have hnext : ∀ k, ∃ t o, m.run (Function.update S j s' k) (project k is) = .ok (t, o) := by
      intro k
      by_cases hk : k = j
      · subst hk
        exact ⟨t, o₂, by simpa using hrest⟩
      · obtain ⟨t, o, hrun⟩ := h k
        rw [project_cons_ne (Ne.symm hk)] at hrun
        exact ⟨t, o, by simpa [hk] using hrun⟩
    obtain ⟨T, out, hrun, hT⟩ := ih hnext
    have hfirst : m.family.step S (j, a) = .ok (Function.update S j s', o₁.map (Prod.mk j)) := by
      simp [family, hstep]
    refine ⟨T, o₁.map (Prod.mk j) ++ out, m.family.run_cons hfirst hrun, ?_⟩
    intro k
    rw [project_append]
    by_cases hk : k = j
    · subst hk
      rw [project_cons_self, project_map_self]
      exact m.run_cons hstep (by simpa using hT k)
    · rw [project_cons_ne (Ne.symm hk), project_map_ne (Ne.symm hk)]
      simpa [hk] using hT k

end Family

end Machine

end NetComponents.Library
