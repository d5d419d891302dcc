import Mathlib.Tactic

/-!
# Byte strings and little-endian numbers

Memory is a list of bytes. Numbers are stored least significant byte first, so
that a fixed-width integer and its bytes in memory determine each other:
`readLE_le` and `le_readLE` are the two directions. `swap16` and `swap32` are
the byte-order conversions of a little-endian host.
-/

namespace NetComponents.Library

abbrev Bytes := List UInt8

/-- The `width` low bytes of `n`, least significant byte first. -/
def le : ℕ → ℕ → Bytes
  | 0, _ => []
  | width + 1, n => UInt8.ofNat n :: le width (n / 256)

/-- The number stored in a byte string, least significant byte first. -/
def readLE : Bytes → ℕ
  | [] => 0
  | b :: bs => b.toNat + 256 * readLE bs

@[simp] theorem length_le (width n : ℕ) : (le width n).length = width := by
  induction width generalizing n with
  | zero => rfl
  | succ width ih => simp [le, ih]

@[simp] theorem readLE_nil : readLE [] = 0 := rfl

@[simp] theorem readLE_cons (b : UInt8) (bs : Bytes) :
    readLE (b :: bs) = b.toNat + 256 * readLE bs := rfl

theorem readLE_lt (bs : Bytes) : readLE bs < 256 ^ bs.length := by
  induction bs with
  | nil => simp
  | cons b bs ih =>
    have hb : b.toNat < 256 := b.toNat_lt
    simp only [readLE_cons, List.length_cons, pow_succ]
    omega

/-- Reading back what was written, up to the width it was written with. -/
theorem readLE_le (width n : ℕ) : readLE (le width n) = n % 256 ^ width := by
  induction width generalizing n with
  | zero => simp [le, Nat.mod_one]
  | succ width ih =>
    have hb : (UInt8.ofNat n).toNat = n % 256 := by simp
    rw [le, readLE_cons, ih, hb, pow_succ, Nat.mul_comm (256 ^ width), Nat.mod_mul]

theorem readLE_le_of_lt {width n : ℕ} (h : n < 256 ^ width) : readLE (le width n) = n := by
  rw [readLE_le, Nat.mod_eq_of_lt h]

theorem le_readLE (bs : Bytes) : le bs.length (readLE bs) = bs := by
  induction bs with
  | nil => rfl
  | cons b bs ih =>
    have hb : b.toNat < 256 := b.toNat_lt
    have hdiv : (b.toNat + 256 * readLE bs) / 256 = readLE bs := by omega
    have hlow : UInt8.ofNat (b.toNat + 256 * readLE bs) = b := by
      apply UInt8.toNat_inj.mp
      simp only [UInt8.toNat_ofNat']
      omega
    simp only [List.length_cons, le, readLE_cons, hdiv, hlow, ih]

/-- `htons` on a little-endian host: exchange the two bytes of a 16-bit value. -/
def swap16 (n : ℕ) : ℕ := n % 256 * 256 + n / 256 % 256

theorem swap16_lt (n : ℕ) : swap16 n < 65536 := by
  unfold swap16
  omega

theorem swap16_swap16 {n : ℕ} (h : n < 65536) : swap16 (swap16 n) = n := by
  have hhi : n / 256 < 256 := by omega
  have hlow : (n % 256 * 256 + n / 256 % 256) % 256 = n / 256 := by omega
  have hhigh : (n % 256 * 256 + n / 256 % 256) / 256 = n % 256 := by omega
  rw [swap16, swap16, hlow, hhigh]
  omega

/-- `htonl` on a little-endian host: reverse the four bytes of a 32-bit value. -/
def swap32 (n : ℕ) : ℕ := readLE (le 4 n).reverse

/-- The `len` bytes of `bs` from offset `off` on, as far as there are any. -/
def slice (bs : Bytes) (off len : ℕ) : Bytes := (bs.drop off).take len

theorem length_slice {bs : Bytes} {off len : ℕ} (h : off + len ≤ bs.length) :
    (slice bs off len).length = len := by
  simp only [slice, List.length_take, List.length_drop]
  omega

theorem slice_append_left {a : Bytes} (b : Bytes) {off len : ℕ} (h : off + len ≤ a.length) :
    slice (a ++ b) off len = slice a off len := by
  have hoff : off ≤ a.length := by omega
  have hlen : len ≤ (a.drop off).length := by simp only [List.length_drop]; omega
  rw [slice, slice, List.drop_append_of_le_length hoff, List.take_append_of_le_length hlen]

theorem slice_append_right (a b : Bytes) (off len : ℕ) :
    slice (a ++ b) (a.length + off) len = slice b off len := by
  rw [slice, slice, ← List.drop_drop, List.drop_left]

/-- The bytes of a field that was written there. -/
theorem slice_field {bs a b c : Bytes} {off len : ℕ} (h : bs = a ++ (b ++ c))
    (ha : a.length = off) (hb : b.length = len) : slice bs off len = b := by
  subst h ha hb
  rw [slice, List.drop_left, List.take_left]

/-- Two pieces that are no longer than two others join to the same list only as these two. -/
theorem append_eq_append_iff_of_le {α : Type*} {a b c d : List α} (hleft : a.length ≤ c.length)
    (hright : b.length ≤ d.length) : a ++ b = c ++ d ↔ a = c ∧ b = d := by
  constructor
  · intro heq
    have hlength := congrArg List.length heq
    simp only [List.length_append] at hlength
    exact List.append_inj heq (by omega)
  · rintro ⟨rfl, rfl⟩
    rfl

/-- Pieces that are nowhere longer than others and join to the same list are the
same pieces. -/
theorem flatMap_eq_flatMap_iff {α β : Type*} {f g : α → List β} {l : List α}
    (h : ∀ a ∈ l, (f a).length ≤ (g a).length) :
    l.flatMap f = l.flatMap g ↔ ∀ a ∈ l, f a = g a := by
  induction l with
  | nil => simp
  | cons a l ih =>
    have hlater : ∀ b ∈ l, (f b).length ≤ (g b).length := fun b hb => h b (by simp [hb])
    have hshort : (l.flatMap f).length ≤ (l.flatMap g).length := by
      rw [List.length_flatMap, List.length_flatMap]
      exact List.sum_le_sum hlater
    rw [List.flatMap_cons, List.flatMap_cons, List.forall_mem_cons, ← ih hlater]
    exact append_eq_append_iff_of_le (h a (by simp)) hshort

/-- The splittings of a list that ends with `a`: those of what comes before `a`, and that at `a`. -/
theorem forall_prefix_snoc {α : Type*} {P : List α → α → Prop} {l : List α} {a : α} :
    (∀ before x, before ++ [x] <+: l ++ [a] → P before x) ↔
      (∀ before x, before ++ [x] <+: l → P before x) ∧ P l a := by
  constructor
  · intro h
    exact ⟨fun before x hx => h before x (hx.trans (List.prefix_append l [a])),
      h l a (List.prefix_refl _)⟩
  · rintro ⟨hbefore, hlast⟩ before x hx
    rcases List.prefix_concat_iff.mp hx with heq | hearlier
    · obtain ⟨rfl, hsame⟩ := List.append_inj' heq rfl
      obtain rfl := List.singleton_inj.mp hsame
      exact hlast
    · exact hbefore before x hearlier

end NetComponents.Library
