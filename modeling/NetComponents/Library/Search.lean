import Mathlib.Tactic

/-!
# The first match

A search through a list with a test that may fail ends at the first element that passes, or at the
first failure. In an ordered list this is the least element that the test does not reject.
-/

namespace NetComponents.Library

variable {ε α : Type*} (test : α → Except ε Bool)

/-- The first element that passes. -/
def firstMatch : List α → Except ε (Option α)
  | [] => .ok none
  | a :: rest =>
    match test a with
    | .error e => .error e
    | .ok true => .ok (some a)
    | .ok false => firstMatch rest

/-- The test rejects every element of the list below this one. -/
def RejectsBelow (r : α → α → Prop) (l : List α) (a : α) : Prop :=
  ∀ b ∈ l, r b a → test b = .ok false

variable {test} {r : α → α → Prop} {l : List α} {a : α}

theorem firstMatch_none_iff : firstMatch test l = .ok none ↔ ∀ a ∈ l, test a = .ok false := by
  induction l with
  | nil => simp [firstMatch]
  | cons a l ih =>
    rw [firstMatch, List.forall_mem_cons]
    cases htest : test a with
    | error e => simp
    | ok passes =>
      cases passes with
      | true => simp
      | false => simpa using ih

/-- In an ordered list some element is the least that is not rejected, unless all are rejected. -/
theorem exists_stop (hr : ∀ a b, r a b → ¬r b a) (hsorted : l.Pairwise r)
    (h : firstMatch test l ≠ .ok none) :
    ∃ a ∈ l, test a ≠ .ok false ∧ RejectsBelow test r l a := by
  induction l with
  | nil => exact absurd rfl h
  | cons x l ih =>
    obtain ⟨hbelow, hrest⟩ := List.pairwise_cons.mp hsorted
    by_cases htest : test x = .ok false
    · rw [firstMatch, htest] at h
      obtain ⟨a, ha, hpasses, hrejects⟩ := ih hrest h
      refine ⟨a, by simp [ha], hpasses, ?_⟩
      exact List.forall_mem_cons.mpr ⟨fun _ => htest, hrejects⟩
    · refine ⟨x, by simp, htest, ?_⟩
      refine List.forall_mem_cons.mpr ⟨fun hx => absurd hx (hr x x hx), fun b hb hbx => ?_⟩
      exact absurd hbx (hr x b (hbelow b hb))

/-- The search stops there. -/
theorem firstMatch_stop (hsorted : l.Pairwise r) (ha : a ∈ l) (htest : test a ≠ .ok false)
    (hrejects : RejectsBelow test r l a) :
    firstMatch test l = (test a).map fun _ => some a := by
  induction l with
  | nil => simp at ha
  | cons x l ih =>
    obtain ⟨hbelow, hrest⟩ := List.pairwise_cons.mp hsorted
    obtain ⟨hhead, htail⟩ := List.forall_mem_cons.mp hrejects
    rcases List.mem_cons.mp ha with rfl | ha
    · rw [firstMatch]
      cases hpasses : test a with
      | error e => rfl
      | ok passes =>
        cases passes with
        | true => rfl
        | false => exact absurd hpasses htest
    · rw [firstMatch, hhead (hbelow a ha)]
      exact ih hrest ha htail

section Ordered

variable (hr : ∀ a b, r a b → ¬r b a) (hsorted : l.Pairwise r)

include hr hsorted

theorem firstMatch_some_iff : firstMatch test l = .ok (some a) ↔
    a ∈ l ∧ test a = .ok true ∧ RejectsBelow test r l a := by
  constructor
  · intro h
    obtain ⟨b, hb, htest, hrejects⟩ := exists_stop hr hsorted (h.trans_ne (by simp))
    rw [firstMatch_stop hsorted hb htest hrejects] at h
    cases hpasses : test b with
    | error e => simp [hpasses, Except.map] at h
    | ok passes =>
      obtain rfl : b = a := by simpa [hpasses, Except.map] using h
      cases passes with
      | true => exact ⟨hb, hpasses, hrejects⟩
      | false => exact absurd hpasses htest
  · rintro ⟨ha, hpasses, hrejects⟩
    rw [firstMatch_stop hsorted ha (by simp [hpasses]) hrejects, hpasses]
    rfl

theorem firstMatch_error_iff {e : ε} : firstMatch test l = .error e ↔
    ∃ a ∈ l, test a = .error e ∧ RejectsBelow test r l a := by
  constructor
  · intro h
    obtain ⟨b, hb, htest, hrejects⟩ := exists_stop hr hsorted (h.trans_ne (by simp))
    rw [firstMatch_stop hsorted hb htest hrejects] at h
    cases hfails : test b with
    | error e' =>
      obtain rfl : e' = e := by simpa [hfails, Except.map] using h
      exact ⟨b, hb, hfails, hrejects⟩
    | ok passes => simp [hfails, Except.map] at h
  · rintro ⟨a, ha, hfails, hrejects⟩
    rw [firstMatch_stop hsorted ha (by simp [hfails]) hrejects, hfails]
    rfl

end Ordered
end NetComponents.Library
