import Mathlib.Tactic

/-!
# While loops

A loop tests its condition and runs its body while that holds. The body may fail, and it may leave
the loop by a `return`. `Heads` are the states in which the condition is tested, with the number of
passes made before; `Leaves` are the states in which control leaves the loop. A loop with an
invariant and a variant (`Total`) keeps the invariant at every head, makes no more passes than the
variant allows and is left without a failure (`Total.run`). `run` executes it within a budget.
-/

namespace NetComponents.Library

/-- A loop on states `σ` with failures `ε`. The body tells whether the loop goes on. -/
structure While (ε σ : Type*) where
  cond : σ → Bool
  body : σ → Except ε (σ × Bool)

namespace While

variable {ε σ : Type*} (w : While ε σ)

/-- The states at the head of the loop, and how many passes were made before. -/
inductive Heads (s : σ) : ℕ → σ → Prop
  | enter : Heads s 0 s
  | pass {n : ℕ} {t u : σ} (h : Heads s n t) (hcond : w.cond t = true)
      (hbody : w.body t = .ok (u, true)) : Heads s (n + 1) u

/-- The states behind the loop. The flag is false where the body has returned. -/
inductive Leaves (s : σ) : σ → Bool → Prop
  | done {n : ℕ} {t : σ} (h : w.Heads s n t) (hcond : w.cond t = false) : Leaves s t true
  | returned {n : ℕ} {t u : σ} (h : w.Heads s n t) (hcond : w.cond t = true)
      (hbody : w.body t = .ok (u, false)) : Leaves s u false

/-- Execute the loop within a budget of passes. -/
def run (stop : ε) : ℕ → σ → Except ε (σ × Bool)
  | 0, _ => .error stop
  | fuel + 1, s =>
    if w.cond s then
      match w.body s with
      | .error e => .error e
      | .ok (t, true) => run stop fuel t
      | .ok (t, false) => .ok (t, false)
    else .ok (s, true)

/-- `I` is an invariant and `v` a variant: from a head at which `I` holds the body does not fail,
and where the loop goes on, `I` holds again and `v` is less. -/
def Total (I : σ → Prop) (v : σ → ℕ) : Prop :=
  ∀ s, I s → w.cond s = true →
    ∃ t go, w.body s = .ok (t, go) ∧ (go = true → I t ∧ v t < v s)

variable {w}

theorem Heads.first {s t u : σ} {n : ℕ} (hcond : w.cond s = true)
    (hbody : w.body s = .ok (t, true)) (h : w.Heads t n u) : w.Heads s (n + 1) u := by
  induction h with
  | enter => exact .pass .enter hcond hbody
  | pass _ hc hb ih => exact .pass ih hc hb

theorem Leaves.first {s t u : σ} {r : Bool} (hcond : w.cond s = true)
    (hbody : w.body s = .ok (t, true)) (h : w.Leaves t u r) : w.Leaves s u r := by
  cases h with
  | done h hc => exact .done (h.first hcond hbody) hc
  | returned h hc hb => exact .returned (h.first hcond hbody) hc hb

/-- What every pass keeps holds at every head. -/
theorem Heads.invariant (I : σ → Prop) {s t : σ} {n : ℕ} (h : w.Heads s n t) (h₀ : I s)
    (hkeep : ∀ n t u, w.Heads s n t → I t → w.cond t = true → w.body t = .ok (u, true) → I u) :
    I t := by
  induction h with
  | enter => exact h₀
  | pass h hcond hbody ih => exact hkeep _ _ _ h ih hcond hbody

/-- At every head the invariant holds, and the passes made so far are paid for by the variant. -/
theorem Total.heads {I : σ → Prop} {v : σ → ℕ} (hw : w.Total I v) {s t : σ} {n : ℕ} (h₀ : I s)
    (h : w.Heads s n t) : I t ∧ n + v t ≤ v s := by
  induction h with
  | enter => exact ⟨h₀, by omega⟩
  | pass _ hcond hbody ih =>
    obtain ⟨hI, hle⟩ := ih
    obtain ⟨u, go, hbody', hgo⟩ := hw _ hI hcond
    cases hbody.symm.trans hbody'
    obtain ⟨hI', hlt⟩ := hgo rfl
    exact ⟨hI', by omega⟩

/-- A loop that is left by its condition is left with the invariant. -/
theorem Total.exit {I : σ → Prop} {v : σ → ℕ} (hw : w.Total I v) {s t : σ} (h₀ : I s)
    (h : w.Leaves s t true) : I t ∧ w.cond t = false := by
  cases h with
  | done h hcond => exact ⟨(hw.heads h₀ h).1, hcond⟩

/-- A loop whose body never returns is left by its condition. -/
theorem Leaves.eq_true {s t : σ} {r : Bool} (h : w.Leaves s t r)
    (hbody : ∀ s t, w.body s ≠ .ok (t, false)) : r = true := by
  cases h with
  | done h hcond => rfl
  | returned h hcond hret => exact absurd hret (hbody _ _)

/-- With a budget above the variant the loop is executed to its end. -/
theorem Total.run {I : σ → Prop} {v : σ → ℕ} (hw : w.Total I v) (stop : ε) {fuel : ℕ} {s : σ}
    (h₀ : I s) (hfuel : v s < fuel) :
    ∃ t r, w.run stop fuel s = .ok (t, r) ∧ w.Leaves s t r := by
  induction fuel generalizing s with
  | zero => omega
  | succ fuel ih =>
    cases hcond : w.cond s with
    | false => exact ⟨s, true, by simp [While.run, hcond], .done .enter hcond⟩
    | true =>
      obtain ⟨t, go, hbody, hgo⟩ := hw s h₀ hcond
      cases go with
      | false => exact ⟨t, false, by simp [While.run, hcond, hbody], .returned .enter hcond hbody⟩
      | true =>
        obtain ⟨hI, hlt⟩ := hgo rfl
        obtain ⟨u, r, hrun, hleaves⟩ := ih hI (by omega)
        exact ⟨u, r, by simp [While.run, hcond, hbody, hrun], hleaves.first hcond hbody⟩

end While

end NetComponents.Library
