import Mathlib.Tactic

/-!
# Backtracking regular expressions

Regular expressions over any alphabet, with the semantics of ECMAScript: a matcher is given what
follows as a continuation, it tries the alternatives in their order and repeats as often as it can,
and the first way that makes the continuation succeed is taken. `run_eq_some` says that what is
found is a match; the lemmas on classes of letters say which one is found.
-/

namespace NetComponents.Library

inductive Regex (α : Type*) where
  | empty
  | one (p : α → Bool)
  | seq (a b : Regex α)
  | alt (a b : Regex α)
  | star (r : Regex α)
  | group (n : ℕ) (r : Regex α)

namespace Regex

variable {α β : Type*}

/-- `r?` -/
def opt (r : Regex α) : Regex α := alt r empty

/-- `r+` -/
def plus (r : Regex α) : Regex α := seq r (star r)

/-- `r{n}` -/
def times : ℕ → Regex α → Regex α
  | 0, _ => empty
  | n + 1, r => seq r (times n r)

def concat : List (Regex α) → Regex α
  | [] => empty
  | r :: rs => seq r (concat rs)

/-- What the groups have matched; nothing for a group that has not taken part. -/
abbrev Groups (α : Type*) := ℕ → List α

/-- What follows a match, on the groups and on the rest of the text. -/
abbrev Continuation (α β : Type*) := Groups α → List α → Option β

/-- Up to `n` matches of a body, each of at least one letter; as many as possible come first. -/
def iterate (body : Continuation α β → Continuation α β) (k : Continuation α β) :
    ℕ → Continuation α β
  | 0 => k
  | n + 1 => fun g s =>
    (body (fun g' t => if t.length < s.length then iterate body k n g' t else none) g s).or (k g s)

def run : Regex α → Continuation α β → Continuation α β
  | empty, k => k
  | one p, k => fun g s =>
    match s with
    | [] => none
    | c :: t => if p c then k g t else none
  | seq a b, k => run a (run b k)
  | alt a b, k => fun g s => (run a k g s).or (run b k g s)
  | star r, k => fun g s => iterate (run r) k s.length g s
  | group n r, k => fun g s =>
    run r (fun g' t => k (Function.update g' n (s.take (s.length - t.length))) t) g s

/-- The end of the text is reached. -/
def accept : Continuation α (Groups α)
  | g, [] => some g
  | _, _ :: _ => none

/-- `regex_match`: the whole text is matched. -/
def matches? (r : Regex α) (s : List α) : Option (Groups α) := r.run accept (fun _ => []) s

/-- A letter, or a text, by itself. -/
def literal [BEq α] : List α → Regex α
  | [] => empty
  | c :: cs => seq (one (· == c)) (literal cs)

/-- What has been consumed, from the text and from what is left of it. -/
theorem take_append_sub (v t : List α) : (v ++ t).take ((v ++ t).length - t.length) = v := by
  rw [List.length_append, Nat.add_sub_cancel, List.take_left]

section Language

/-- A text is in the language of an expression, and the groups change from the first ones to the
last ones. -/
inductive Parses : Regex α → Groups α → List α → Groups α → Prop where
  | empty (g : Groups α) : Parses empty g [] g
  | one {p : α → Bool} {c : α} (g : Groups α) (hc : p c = true) : Parses (one p) g [c] g
  | seq {a b : Regex α} {g g' g'' : Groups α} {v w : List α} (ha : Parses a g v g')
      (hb : Parses b g' w g'') : Parses (seq a b) g (v ++ w) g''
  | left {a b : Regex α} {g g' : Groups α} {w : List α} (ha : Parses a g w g') :
      Parses (alt a b) g w g'
  | right {a b : Regex α} {g g' : Groups α} {w : List α} (hb : Parses b g w g') :
      Parses (alt a b) g w g'
  | done {r : Regex α} (g : Groups α) : Parses (star r) g [] g
  | more {r : Regex α} {g g' g'' : Groups α} {v w : List α} (hv : v ≠ []) (hr : Parses r g v g')
      (hrest : Parses (star r) g' w g'') : Parses (star r) g (v ++ w) g''
  | group {n : ℕ} {r : Regex α} {g g' : Groups α} {w : List α} (hr : Parses r g w g') :
      Parses (group n r) g w (Function.update g' n w)

theorem iterate_succ (body : Continuation α β → Continuation α β) (k : Continuation α β) (n : ℕ)
    (g : Groups α) (s : List α) :
    iterate body k (n + 1) g s =
      (body (fun g' t => if t.length < s.length then iterate body k n g' t else none) g s).or
        (k g s) := rfl

theorem iterate_eq_some {r : Regex α}
    (hr : ∀ (k : Continuation α β) (g : Groups α) (s : List α) (x : β), r.run k g s = some x →
      ∃ w t g', s = w ++ t ∧ Parses r g w g' ∧ k g' t = some x)
    {k : Continuation α β} {n : ℕ} {g : Groups α} {s : List α} {x : β}
    (h : iterate (run r) k n g s = some x) :
    ∃ w t g', s = w ++ t ∧ Parses (star r) g w g' ∧ k g' t = some x := by
  induction n generalizing g s with
  | zero => exact ⟨[], s, g, rfl, .done g, h⟩
  | succ n ih =>
    rw [iterate_succ, Option.or_eq_some_iff] at h
    rcases h with h | ⟨-, h⟩
    · obtain ⟨v, u, g', rfl, hv, hk⟩ := hr _ _ _ _ h
      split_ifs at hk with hlength
      obtain ⟨w, t, g'', rfl, hw, hx⟩ := ih hk
      have hne : v ≠ [] := by
        rintro rfl
        simp at hlength
      exact ⟨v ++ w, t, g'', by rw [List.append_assoc], .more hne hv hw, hx⟩
    · exact ⟨[], s, g, rfl, .done g, h⟩

/-- What the matcher finds is a match. -/
theorem run_eq_some {r : Regex α} {k : Continuation α β} {g : Groups α} {s : List α} {x : β}
    (h : r.run k g s = some x) :
    ∃ w t g', s = w ++ t ∧ Parses r g w g' ∧ k g' t = some x := by
  induction r generalizing k g s x with
  | empty => exact ⟨[], s, g, rfl, .empty g, h⟩
  | one p =>
    cases s with
    | nil => cases h
    | cons c t =>
      simp only [run] at h
      split_ifs at h with hc
      exact ⟨[c], t, g, rfl, .one g hc, h⟩
  | seq a b iha ihb =>
    obtain ⟨v, u, g', rfl, hv, hu⟩ := iha h
    obtain ⟨w, t, g'', rfl, hw, hk⟩ := ihb hu
    exact ⟨v ++ w, t, g'', by rw [List.append_assoc], .seq hv hw, hk⟩
  | alt a b iha ihb =>
    rw [run, Option.or_eq_some_iff] at h
    rcases h with h | ⟨-, h⟩
    · obtain ⟨w, t, g', rfl, hw, hk⟩ := iha h
      exact ⟨w, t, g', rfl, .left hw, hk⟩
    · obtain ⟨w, t, g', rfl, hw, hk⟩ := ihb h
      exact ⟨w, t, g', rfl, .right hw, hk⟩
  | star r ih => exact iterate_eq_some (fun _ _ _ _ h => ih h) h
  | group n r ih =>
    obtain ⟨w, t, g', rfl, hw, hk⟩ := ih h
    rw [take_append_sub] at hk
    exact ⟨w, t, _, rfl, .group hw, hk⟩

theorem matches?_eq_some {r : Regex α} {s : List α} {g : Groups α} (h : r.matches? s = some g) :
    Parses r (fun _ => []) s g := by
  obtain ⟨w, t, g', rfl, hw, hg⟩ := run_eq_some h
  cases t with
  | nil =>
    cases hg
    rwa [List.append_nil]
  | cons c t => cases hg

/-- Every class of letters in the expression is a part of the given one. -/
def Over (p : α → Prop) : Regex α → Prop
  | empty => True
  | one q => ∀ c, q c = true → p c
  | seq a b => a.Over p ∧ b.Over p
  | alt a b => a.Over p ∧ b.Over p
  | star r => r.Over p
  | group _ r => r.Over p

theorem over_literal [BEq α] [LawfulBEq α] {p : α → Prop} (w : List α) :
    (literal w).Over p ↔ ∀ c ∈ w, p c := by
  induction w with
  | nil => simp [literal, Over]
  | cons c w ih => simp [literal, Over, ih]

theorem Parses.over {p : α → Prop} {r : Regex α} {g g' : Groups α} {w : List α}
    (h : Parses r g w g') (hr : r.Over p) : ∀ c ∈ w, p c := by
  induction h with
  | empty | done => simp
  | one _ hc => simpa using hr _ hc
  | seq _ _ iha ihb => exact List.forall_mem_append.mpr ⟨iha hr.1, ihb hr.2⟩
  | left _ ih => exact ih hr.1
  | right _ ih => exact ih hr.2
  | more _ _ _ ihr ihrest => exact List.forall_mem_append.mpr ⟨ihr hr, ihrest hr⟩
  | group _ ih => exact ih hr

/-- The expression has no group of the given number. -/
def Free (n : ℕ) : Regex α → Prop
  | empty => True
  | one _ => True
  | seq a b => a.Free n ∧ b.Free n
  | alt a b => a.Free n ∧ b.Free n
  | star r => r.Free n
  | group m r => m ≠ n ∧ r.Free n

theorem Parses.frame {n : ℕ} {r : Regex α} {g g' : Groups α} {w : List α} (h : Parses r g w g')
    (hr : r.Free n) : g' n = g n := by
  induction h with
  | empty | done | one => rfl
  | seq _ _ iha ihb => rw [ihb hr.2, iha hr.1]
  | left _ ih => exact ih hr.1
  | right _ ih => exact ih hr.2
  | more _ _ _ ihr ihrest => rw [ihrest hr, ihr hr]
  | group _ ih => rw [Function.update_of_ne hr.1.symm, ih hr.2]

theorem parses_plus_ne_nil {p : α → Bool} {g g' : Groups α} {w : List α}
    (h : Parses (plus (one p)) g w g') : w ≠ [] := by
  cases h with
  | seq hfirst _ =>
    cases hfirst with
    | one _ _ => exact List.cons_ne_nil _ _

/-- The last part of an expression is the last to change the groups. -/
theorem parses_concat_last {rs : List (Regex α)} {r : Regex α} (hr : rs.getLast? = some r)
    {g g' : Groups α} {w : List α} (h : Parses (concat rs) g w g') :
    ∃ g₁ v, Parses r g₁ v g' := by
  induction rs generalizing g w with
  | nil => cases hr
  | cons a rs ih =>
    cases h with
    | seq ha hrest =>
      cases rs with
      | nil =>
        cases hr
        cases hrest
        exact ⟨_, _, ha⟩
      | cons b rs => exact ih (by simpa using hr) hrest

theorem run_literal_append [BEq α] [LawfulBEq α] (w : List α) (k : Continuation α β) (g : Groups α)
    (t : List α) : (literal w).run k g (w ++ t) = k g t := by
  induction w with
  | nil => rfl
  | cons c w ih => simp only [literal, run, List.cons_append, BEq.rfl, if_true, ih]

theorem run_concat_append (rs rs' : List (Regex α)) (k : Continuation α β) :
    (concat (rs ++ rs')).run k = (concat rs).run ((concat rs').run k) := by
  induction rs with
  | nil => rfl
  | cons r rs ih =>
    change r.run ((concat (rs ++ rs')).run k) = _
    rw [ih]
    rfl

theorem run_opt_some {r : Regex α} {k : Continuation α β} {g : Groups α} {s : List α} {x : β}
    (h : r.run k g s = some x) : (opt r).run k g s = some x := by
  change (r.run k g s).or (k g s) = some x
  rw [h, Option.some_or]

theorem run_opt_none {r : Regex α} {k : Continuation α β} {g : Groups α} {s : List α}
    (h : r.run k g s = none) : (opt r).run k g s = k g s := by
  change (r.run k g s).or (k g s) = k g s
  rw [h, Option.none_or]

theorem run_literal_eq_some [BEq α] [LawfulBEq α] {w : List α} {k : Continuation α β} {g : Groups α}
    {s : List α} {x : β} (h : (literal w).run k g s = some x) :
    ∃ t, s = w ++ t ∧ k g t = some x := by
  induction w generalizing s with
  | nil => exact ⟨s, rfl, h⟩
  | cons c w ih =>
    cases s with
    | nil => cases h
    | cons a s =>
      simp only [literal, run] at h
      split_ifs at h with ha
      obtain ⟨t, rfl, hk⟩ := ih h
      exact ⟨t, by rw [eq_of_beq ha, List.cons_append], hk⟩

theorem run_literal_none [BEq α] [LawfulBEq α] {w s : List α} (h : ∀ t, s ≠ w ++ t)
    (k : Continuation α β) (g : Groups α) : (literal w).run k g s = none := by
  rw [Option.eq_none_iff_forall_ne_some]
  intro x hx
  obtain ⟨t, ht, -⟩ := run_literal_eq_some hx
  exact h t ht

end Language

section Classes

variable {p : α → Bool} {k : Continuation α β} {g : Groups α}

theorem take_dropWhile (p : α → Bool) (s : List α) :
    s.take (s.length - (s.dropWhile p).length) = s.takeWhile p := by
  have htake := take_append_sub (s.takeWhile p) (s.dropWhile p)
  rwa [List.takeWhile_append_dropWhile] at htake

theorem dropWhile_dropWhile {q : α → Bool} (h : ∀ c, p c = true → q c = true) (s : List α) :
    (s.dropWhile p).dropWhile q = s.dropWhile q := by
  induction s with
  | nil => rfl
  | cons c s ih =>
    by_cases hc : p c = true
    · rw [List.dropWhile_cons_of_pos hc, List.dropWhile_cons_of_pos (h c hc), ih]
    · rw [List.dropWhile_cons_of_neg hc]

theorem head_dropWhile {s : List α} : ∀ c ∈ (s.dropWhile p).head?, p c = false := by
  intro c hc
  have hnot := List.head?_dropWhile_not p s
  rw [Option.mem_def.mp hc] at hnot
  exact hnot

theorem run_star_one_cons (k : Continuation α β) (g : Groups α) (c : α) (s : List α) :
    (star (one p)).run k g (c :: s) =
      if p c then ((star (one p)).run k g s).or (k g (c :: s)) else k g (c :: s) := by
  simp only [run, List.length_cons, iterate]
  split
  · rw [if_pos (Nat.lt_succ_self _)]
  · rfl

/-- A class is repeated as long as it can be, if what follows can do with the rest. -/
theorem run_star_one {s : List α} {x : β} (h : k g (s.dropWhile p) = some x) :
    (star (one p)).run k g s = some x := by
  induction s with
  | nil => exact h
  | cons c s ih =>
    rw [run_star_one_cons]
    cases hc : p c with
    | true =>
      rw [List.dropWhile_cons_of_pos hc] at h
      rw [if_pos rfl, ih h, Option.some_or]
    | false =>
      rw [List.dropWhile_cons_of_neg (by simp [hc])] at h
      rw [if_neg (by simp), h]

/-- A class is repeated as long as it can be, if what follows cannot begin with one of its
letters. -/
theorem run_star_one_of_none (s : List α) (h : ∀ c t, p c = true → k g (c :: t) = none) :
    (star (one p)).run k g s = k g (s.dropWhile p) := by
  induction s with
  | nil => rfl
  | cons c s ih =>
    rw [run_star_one_cons]
    cases hc : p c with
    | true => rw [if_pos rfl, ih, h c s hc, Option.or_none, List.dropWhile_cons_of_pos hc]
    | false => rw [if_neg (by simp), List.dropWhile_cons_of_neg (by simp [hc])]

theorem run_plus_one {c : α} (hc : p c = true) {s : List α} {x : β}
    (h : k g ((c :: s).dropWhile p) = some x) : (plus (one p)).run k g (c :: s) = some x := by
  have hfirst : (plus (one p)).run k g (c :: s) = (star (one p)).run k g s := if_pos hc
  rw [List.dropWhile_cons_of_pos hc] at h
  rw [hfirst, run_star_one h]

theorem run_plus_one_of_none {c : α} (hc : p c = false) (k : Continuation α β) (g : Groups α)
    (s : List α) : (plus (one p)).run k g (c :: s) = none := if_neg (by simp [hc])

theorem run_group_star {n : ℕ} {s : List α} {x : β}
    (h : k (Function.update g n (s.takeWhile p)) (s.dropWhile p) = some x) :
    (group n (star (one p))).run k g s = some x := by
  rw [← take_dropWhile] at h
  exact run_star_one h

theorem run_group_plus {c : α} (hc : p c = true) {n : ℕ} {s : List α} {x : β}
    (h : k (Function.update g n ((c :: s).takeWhile p)) ((c :: s).dropWhile p) = some x) :
    (group n (plus (one p))).run k g (c :: s) = some x := by
  rw [← take_dropWhile] at h
  exact run_plus_one hc h

end Classes

section Characters

/-- `\w` in the classic locale -/
def isWord (c : Char) : Bool := c.isAlphanum || c == '_'

/-- `\s` in the classic locale -/
def isSpace (c : Char) : Bool := c == ' ' || (9 ≤ c.toNat && c.toNat ≤ 13)

/-- `.` -/
def isAny (c : Char) : Bool := c != '\n' && c != '\r'

/-- The number that decimal digits denote. -/
def decimal (s : List Char) : ℕ := s.foldl (fun n c => 10 * n + (c.toNat - '0'.toNat)) 0

def oneOf (s : String) : Regex Char := one fun c => s.toList.contains c

def noneOf (s : String) : Regex Char := one fun c => !s.toList.contains c

end Characters

end Regex

end NetComponents.Library
