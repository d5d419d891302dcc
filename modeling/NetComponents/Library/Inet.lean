import NetComponents.Library.Bytes

/-!
# Address texts

`inet_ntop` for the two address families, with the rules of RFC-style texts: an
IPv6 text abbreviates its first longest run of at least two zero words and ends
in dotted decimal for the embedded IPv4 forms. What the results need of these
texts is which characters they are made of; with that, a text that joins
addresses and ports with separators can be taken apart again.
-/

namespace NetComponents.Library

/-- `inet_ntop(AF_INET, ..)`: the bytes in decimal, separated by dots. -/
def inetNtop4 (addr : Bytes) : String :=
  ".".intercalate (addr.map fun b => toString b.toNat)

/-- The 16-bit words of an address, most significant byte first. -/
def words : Bytes → List ℕ
  | hi :: lo :: rest => (hi.toNat * 256 + lo.toNat) :: words rest
  | _ => []

/-- A run of zero words: its first index and its length. -/
structure ZeroRun where
  base : ℕ
  len : ℕ
  deriving DecidableEq, Repr

/-- The longer of the two runs, the earlier one if they are equally long. -/
def ZeroRun.better (best cur : Option ZeroRun) : Option ZeroRun :=
  match best, cur with
  | some b, some c => if c.len > b.len then some c else some b
  | none, c => c
  | b, none => b

/-- The first longest run of zero words, by one pass with the best run so far
and the run that reaches up to the index `i`. -/
def zeroRun (i : ℕ) (best cur : Option ZeroRun) : List ℕ → Option ZeroRun
  | [] => ZeroRun.better best cur
  | 0 :: ws => zeroRun (i + 1) best (some (cur.elim ⟨i, 1⟩ fun c => ⟨c.base, c.len + 1⟩)) ws
  | _ :: ws => zeroRun (i + 1) (ZeroRun.better best cur) none ws

def hex (n : ℕ) : String := String.ofList (Nat.toDigits 16 n)

/-- The groups from index `i` on. `tail` is the dotted form of the last four
bytes, `embedded` whether it replaces the last two words. -/
def groups (run : Option ZeroRun) (embedded : Bool) (tail : String) (i : ℕ) : List ℕ → String
  | [] => if run.any fun r => r.base + r.len = i then ":" else ""
  | w :: ws =>
    let inside := run.any fun r => r.base ≤ i ∧ i < r.base + r.len
    if inside then
      (if run.any fun r => r.base = i then ":" else "") ++ groups run embedded tail (i + 1) ws
    else
      let sep := if i = 0 then "" else ":"
      if i = 6 ∧ embedded then sep ++ tail
      else sep ++ hex w ++ groups run embedded tail (i + 1) ws

/-- `inet_ntop(AF_INET6, ..)` -/
def inetNtop6 (addr : Bytes) : String :=
  let ws := words addr
  let run := (zeroRun 0 none none ws).filter fun r => r.len ≥ 2
  let embedded := run.any fun r =>
    r.base = 0 ∧ (r.len = 6 ∨ (r.len = 5 ∧ ws[5]? = some 0xffff))
  groups run embedded (inetNtop4 (addr.drop 12)) 0 ws

example : inetNtop4 [192, 0, 2, 1] = "192.0.2.1" := by decide +kernel

example : inetNtop6 [0x20, 1, 0xd, 0xb8, 0, 0, 0, 0, 0, 0, 0, 0, 0, 0, 0, 1] = "2001:db8::1" := by
  decide +kernel

example : inetNtop6 [0, 0, 0, 0, 0, 0, 0, 0, 0, 0, 0xff, 0xff, 192, 0, 2, 1] =
    "::ffff:192.0.2.1" := by decide +kernel

example : inetNtop6 [0, 1, 0, 0, 0, 0, 0, 1, 0, 0, 0, 0, 0, 0, 0, 0] = "1:0:0:1::" := by
  decide +kernel

/-- A text without a dash. -/
def Dashless (s : String) : Prop := '-' ∉ s.toList

theorem Dashless.append {s t : String} (hs : Dashless s) (ht : Dashless t) :
    Dashless (s ++ t) := by
  simp [Dashless] at *
  exact ⟨hs, ht⟩

theorem mem_toDigits {b n : ℕ} {ch : Char} (hb : 1 < b) (h : ch ∈ Nat.toDigits b n) :
    ∃ d < b, ch = Nat.digitChar d := by
  induction n using Nat.strongRecOn with
  | ind n ih =>
    rw [Nat.toDigits_eq_if hb] at h
    split_ifs at h with hn
    · exact ⟨n, hn, by simpa using h⟩
    · rcases List.mem_append.mp h with h | h
      · exact ih (n / b) (Nat.div_lt_self (by omega) hb) h
      · exact ⟨n % b, Nat.mod_lt _ (by omega), by simpa using h⟩

theorem dashless_hex (n : ℕ) : Dashless (hex n) := by
  intro h
  rw [hex, String.toList_ofList] at h
  obtain ⟨d, hd, hch⟩ := mem_toDigits (by decide) h
  interval_cases d <;> simp [Nat.digitChar] at hch

theorem digits_of_toString {n : ℕ} {ch : Char} (h : ch ∈ (toString n).toList) : ch.isDigit := by
  rw [Nat.toString_eq_repr, Nat.toList_repr] at h
  exact Nat.isDigit_of_mem_toDigits (by decide) le_rfl h

theorem dashless_toString (n : ℕ) : Dashless (toString n) := by
  intro h
  have := digits_of_toString h
  simp [Char.isDigit] at this

theorem dashless_inetNtop4 (addr : Bytes) : Dashless (inetNtop4 addr) := by
  unfold inetNtop4
  induction addr with
  | nil => simp [Dashless]
  | cons b addr ih =>
    cases addr with
    | nil => simpa using dashless_toString b.toNat
    | cons c addr =>
      have hdot : Dashless "." := by simp [Dashless]
      have := ((dashless_toString b.toNat).append hdot).append ih
      simpa [String.intercalate_cons_of_ne_nil] using this

theorem dashless_groups (run : Option ZeroRun) (embedded : Bool) {tail : String}
    (htail : Dashless tail) (i : ℕ) (ws : List ℕ) :
    Dashless (groups run embedded tail i ws) := by
  induction ws generalizing i with
  | nil =>
    unfold groups
    split_ifs <;> simp [Dashless]
  | cons w ws ih =>
    have hcolon : Dashless ":" := by simp [Dashless]
    have hempty : Dashless "" := by simp [Dashless]
    unfold groups
    extract_lets inside sep
    have hsep : Dashless sep := by
      unfold sep
      split_ifs
      · exact hempty
      · exact hcolon
    split_ifs
    · exact hcolon.append (ih (i + 1))
    · exact hempty.append (ih (i + 1))
    · exact hsep.append htail
    · exact (hsep.append (dashless_hex w)).append (ih (i + 1))

theorem dashless_inetNtop6 (addr : Bytes) : Dashless (inetNtop6 addr) := by
  apply dashless_groups
  exact dashless_inetNtop4 _

/-- A separator that the first parts do not contain fixes where they end. -/
theorem append_cons_inj_first {α : Type*} {sep : α} {x y x' y' : List α} (hx : sep ∉ x)
    (hx' : sep ∉ x') (h : x ++ sep :: y = x' ++ sep :: y') : x = x' ∧ y = y' := by
  induction x generalizing x' with
  | nil =>
    cases x' with
    | nil => exact ⟨rfl, (List.cons.inj h).2⟩
    | cons b x' => exact absurd (List.cons.inj h).1.symm (List.ne_of_not_mem_cons hx').symm
  | cons a x ih =>
    cases x' with
    | nil => exact absurd (List.cons.inj h).1 (List.ne_of_not_mem_cons hx).symm
    | cons b x' =>
      simp only [List.cons_append, List.cons.injEq, List.mem_cons, not_or] at h hx hx'
      obtain ⟨rfl, rfl⟩ := ih hx.2 hx'.2 h.2
      exact ⟨by rw [h.1], rfl⟩

/-- A separator that the last parts do not contain fixes where they start. -/
theorem append_cons_inj_last {α : Type*} {sep : α} {x y x' y' : List α} (hy : sep ∉ y)
    (hy' : sep ∉ y') (h : x ++ sep :: y = x' ++ sep :: y') : x = x' ∧ y = y' := by
  have hrev : y.reverse ++ sep :: x.reverse = y'.reverse ++ sep :: x'.reverse := by
    simpa using congrArg List.reverse h
  have := append_cons_inj_first (by simpa using hy) (by simpa using hy') hrev
  exact ⟨List.reverse_injective this.2, List.reverse_injective this.1⟩

theorem toString_nat_injective : Function.Injective (toString : ℕ → String) := by
  intro a b h
  have hdigits : Nat.toDigits 10 a = Nat.toDigits 10 b := by
    rw [← Nat.toList_repr, ← Nat.toList_repr]
    exact congrArg String.toList h
  have hvalue := congrArg (fun digits => Nat.ofDigitChars 10 digits 0) hdigits
  simpa only [Nat.ofDigitChars_ten_toDigits] using hvalue

end NetComponents.Library
