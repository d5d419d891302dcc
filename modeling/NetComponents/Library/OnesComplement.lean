import NetComponents.Library.Bytes

/-!
# One's-complement sums

The internet checksums add up 16-bit words with an end-around carry. Such a sum is the residue of
the ordinary sum modulo `65535`, where `65535` and not zero stands for the multiples of it that are
positive. So the parts of a sum can be added up in any order, and folded as often as one likes.
-/

namespace NetComponents.Library

/-- The number whose bytes are given, the most significant byte first. -/
def readBE (bs : Bytes) : ℕ := readLE bs.reverse

/-- The 16-bit words of some bytes in big-endian order, padded with a zero byte. -/
def paddedWords : Bytes → List ℕ
  | hi :: lo :: rest => (hi.toNat * 256 + lo.toNat) :: paddedWords rest
  | [hi] => [hi.toNat * 256]
  | [] => []

/-- Addition of 16-bit words with an end-around carry. -/
def onesAdd (a b : ℕ) : ℕ := (a + b) % 65536 + (a + b) / 65536

def onesSum (ws : List ℕ) : ℕ := ws.foldr onesAdd 0

/-- The one's-complement number that a natural number stands for. -/
def onesResidue (n : ℕ) : ℕ := if n = 0 then 0 else (n - 1) % 65535 + 1

@[simp] theorem readBE_le_one (n : ℕ) : readBE (le 1 n) = n % 256 := by
  simp only [readBE, le, List.reverse_cons, List.reverse_nil, List.nil_append]
  exact readLE_le 1 n

@[simp] theorem readBE_le_two (n : ℕ) : readBE (le 2 n) = swap16 n := by
  have hlo : (UInt8.ofNat n).toNat = n % 256 := UInt8.toNat_ofNat'
  have hhi : (UInt8.ofNat (n / 256)).toNat = n / 256 % 256 := UInt8.toNat_ofNat'
  simp only [readBE, le, List.reverse_cons, List.reverse_nil, List.nil_append, List.cons_append,
    readLE_cons, readLE_nil, swap16, hlo, hhi]
  omega

section Words

@[simp] theorem paddedWords_nil : paddedWords [] = [] := rfl

theorem paddedWords_cons_cons (hi lo : UInt8) (rest : Bytes) :
    paddedWords (hi :: lo :: rest) = (hi.toNat * 256 + lo.toNat) :: paddedWords rest := rfl

theorem paddedWords_le (bs : Bytes) : ∀ w ∈ paddedWords bs, w ≤ 65535 := by
  induction bs using paddedWords.induct with
  | case1 hi lo rest ih =>
    have hhi := hi.toNat_lt
    have hlo := lo.toNat_lt
    intro w hw
    rcases List.mem_cons.mp hw with rfl | hw
    · omega
    · exact ih w hw
  | case2 hi =>
    have hhi := hi.toNat_lt
    intro w hw
    obtain rfl := List.mem_singleton.mp hw
    omega
  | case3 => simp

/-- Words are not cut apart where an even number of bytes ends. -/
theorem paddedWords_append {a : Bytes} (h : a.length % 2 = 0) (b : Bytes) :
    paddedWords (a ++ b) = paddedWords a ++ paddedWords b := by
  induction a using paddedWords.induct with
  | case1 hi lo rest ih =>
    rw [List.cons_append, List.cons_append, paddedWords_cons_cons, paddedWords_cons_cons,
      List.cons_append, ih (by simp only [List.length_cons] at h; omega)]
  | case2 hi => simp at h
  | case3 => rfl

/-- A word that is stored on a little-endian host is read with its bytes swapped. -/
theorem paddedWords_le_append (n : ℕ) (rest : Bytes) :
    paddedWords (le 2 n ++ rest) = swap16 n :: paddedWords rest := by
  have hlo : (UInt8.ofNat n).toNat = n % 256 := UInt8.toNat_ofNat'
  have hhi : (UInt8.ofNat (n / 256)).toNat = n / 256 % 256 := UInt8.toNat_ofNat'
  simp only [le, List.cons_append, List.nil_append, paddedWords_cons_cons, swap16, hlo, hhi]

theorem paddedWords_bytes_append (hi lo : ℕ) (rest : Bytes) :
    paddedWords (le 1 hi ++ (le 1 lo ++ rest)) =
      (hi % 256 * 256 + lo % 256) :: paddedWords rest := by
  have hhi : (UInt8.ofNat hi).toNat = hi % 256 := UInt8.toNat_ofNat'
  have hlo : (UInt8.ofNat lo).toNat = lo % 256 := UInt8.toNat_ofNat'
  simp only [le, List.cons_append, List.nil_append, paddedWords_cons_cons, hhi, hlo]

theorem paddedWords_sum_le (bs : Bytes) :
    (paddedWords bs).sum ≤ 65535 * ((bs.length + 1) / 2) := by
  induction bs using paddedWords.induct with
  | case1 hi lo rest ih =>
    have hhi := hi.toNat_lt
    have hlo := lo.toNat_lt
    rw [paddedWords_cons_cons, List.sum_cons, List.length_cons, List.length_cons]
    omega
  | case2 hi =>
    have hhi := hi.toNat_lt
    simp only [paddedWords, List.sum_cons, List.sum_nil, List.length_cons, List.length_nil]
    omega
  | case3 => simp

end Words

section Residue

theorem onesResidue_le (n : ℕ) : onesResidue n ≤ 65535 := by
  unfold onesResidue
  split
  · omega
  · omega

theorem onesResidue_of_le {n : ℕ} (h : n ≤ 65535) : onesResidue n = n := by
  unfold onesResidue
  split
  · omega
  · omega

theorem onesResidue_eq_iff {m n : ℕ} :
    onesResidue m = onesResidue n ↔ m % 65535 = n % 65535 ∧ (m = 0 ↔ n = 0) := by
  unfold onesResidue
  split
  · split
    · omega
    · omega
  · split
    · omega
    · omega

theorem onesResidue_mod (n : ℕ) : onesResidue n % 65535 = n % 65535 := by
  unfold onesResidue
  split
  · omega
  · omega

theorem onesResidue_eq_zero_iff {n : ℕ} : onesResidue n = 0 ↔ n = 0 := by
  unfold onesResidue
  split
  · omega
  · omega

theorem onesResidue_add (m n : ℕ) : onesResidue (onesResidue m + n) = onesResidue (m + n) := by
  rw [onesResidue_eq_iff, Nat.add_mod, onesResidue_mod, ← Nat.add_mod]
  have hzero := @onesResidue_eq_zero_iff m
  omega

/-- The parts of a sum may be summed first. -/
theorem onesResidue_parts (l m n c : ℕ) :
    onesResidue (onesResidue l + onesResidue m + onesResidue n + c) =
      onesResidue (l + m + n + c) := by
  calc onesResidue (onesResidue l + onesResidue m + onesResidue n + c)
      = onesResidue (onesResidue l + (onesResidue m + onesResidue n + c)) := by
        rw [Nat.add_assoc, Nat.add_assoc, Nat.add_assoc]
    _ = onesResidue (onesResidue m + (onesResidue n + (l + c))) := by
        rw [onesResidue_add]
        exact congrArg onesResidue (by omega)
    _ = onesResidue (onesResidue n + (l + m + c)) := by
        rw [onesResidue_add]
        exact congrArg onesResidue (by omega)
    _ = onesResidue (l + m + n + c) := by
        rw [onesResidue_add]
        exact congrArg onesResidue (by omega)

/-- A carry may be added to the low word at any time. -/
theorem onesResidue_fold (n : ℕ) : onesResidue (n % 65536 + n / 65536) = onesResidue n := by
  rw [onesResidue_eq_iff]
  omega

theorem onesResidue_eq_max_iff {n : ℕ} : onesResidue n = 65535 ↔ n % 65535 = 0 ∧ n ≠ 0 := by
  unfold onesResidue
  split
  · omega
  · omega

/-- A sum and the complement of its residue add up to all ones. -/
theorem onesResidue_add_complement {n : ℕ} (h : 0 < n) :
    onesResidue (n + (65535 - onesResidue n)) = 65535 := by
  have hle := onesResidue_le n
  have hself := onesResidue_mod n
  rw [onesResidue_eq_max_iff]
  omega

theorem onesAdd_eq {a b : ℕ} (ha : a ≤ 65535) (hb : b ≤ 65535) :
    onesAdd a b = onesResidue (a + b) := by
  have hle : onesAdd a b ≤ 65535 := by
    unfold onesAdd
    omega
  rw [← onesResidue_fold (a + b), ← onesResidue_of_le hle]
  rfl

theorem onesSum_eq {ws : List ℕ} (h : ∀ w ∈ ws, w ≤ 65535) : onesSum ws = onesResidue ws.sum := by
  induction ws with
  | nil => rfl
  | cons w ws ih =>
    have hrest := ih fun v hv => h v (by simp [hv])
    have hw : w ≤ 65535 := h w (by simp)
    have hsum : onesSum (w :: ws) = onesAdd w (onesSum ws) := rfl
    rw [hsum, hrest, onesAdd_eq hw (onesResidue_le _), Nat.add_comm, onesResidue_add, List.sum_cons,
      Nat.add_comm]

theorem onesSum_paddedWords (bs : Bytes) :
    onesSum (paddedWords bs) = onesResidue (paddedWords bs).sum :=
  onesSum_eq (paddedWords_le bs)

end Residue

end NetComponents.Library
