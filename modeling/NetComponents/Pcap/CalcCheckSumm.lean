import NetComponents.Library.While
import NetComponents.Pcap.Checksums

/-!
# The loops of the checksum

`calcCheckSumm` adds up its buffer word by word, takes a last odd byte and folds the carries. Here
its loops are executed pass by pass, with every read checked and every addition made in 32 bits.
They end with the value of `calcCheckSumm`, and no addition overflows if and only if all the words
add up to less than `2 ^ 32`.
-/

namespace NetComponents.Pcap

open Library

namespace IPPacket

/-- The variables of the first loop. The pointer `p` is an offset into the buffer. -/
structure Words where
  summ : ℕ
  sz : ℕ
  p : ℕ

def Words.start (data : Bytes) : Words := ⟨0, data.length, 0⟩

/-- `while (sz >= sizeof(uint16_t))` -/
def wordLoop (data : Bytes) : While Stop Words where
  cond s := 2 ≤ s.sz
  body s := (readNat data s.p 2).map fun word =>
    (⟨(s.summ + swap16 word) % 2 ^ 32, s.sz - 2, s.p + 2⟩, true)

/-- `if (sz == 1)` -/
def lastByte (data : Bytes) (s : Words) : Exec ℕ :=
  if s.sz = 1 then (readNat data s.p 1).map fun b => (s.summ + swap16 b) % 2 ^ 32
  else .ok s.summ

/-- `while (summ >> 16)` -/
def foldLoop : While Stop ℕ where
  cond summ := summ / 65536 ≠ 0
  body summ := .ok ((summ % 65536 + summ / 65536) % 2 ^ 32, true)

/-- `calcCheckSumm`, pass by pass. The carries are folded twice at most. -/
def calcCheckSummLoops (data : Bytes) : Exec ℕ := do
  let words ← (wordLoop data).run .outOfFuel (data.length / 2 + 1) (.start data)
  let summ ← lastByte data words.1
  let folded ← foldLoop.run .outOfFuel 3 summ
  return swap16 ((2 ^ 32 - 1 - folded.1) % 65536)

section Reads

variable {data : Bytes} {p : ℕ}

theorem read_word (h : p + 2 ≤ data.length) :
    ∃ hi lo, data.drop p = hi :: lo :: data.drop (p + 2) ∧
      readNat data p 2 = .ok (readLE [hi, lo]) := by
  have hdrop : data.drop p = data[p] :: data[p + 1] :: data.drop (p + 2) := by
    rw [List.drop_eq_getElem_cons (by omega), List.drop_eq_getElem_cons (by omega)]
  refine ⟨data[p], data[p + 1], hdrop, ?_⟩
  rw [readNat_ok h, slice, hdrop]
  rfl

theorem read_byte (h : p + 1 = data.length) :
    ∃ b : UInt8, data.drop p = [b] ∧ readNat data p 1 = .ok b.toNat := by
  have hdrop : data.drop p = [data[p]] := by
    rw [List.drop_eq_getElem_cons (by omega), List.drop_of_length_le (by omega)]
  refine ⟨data[p], hdrop, ?_⟩
  rw [readNat_ok (by omega), slice, hdrop]
  simp

/-- The word at `p` is the first that is left. -/
theorem sum_word {word : ℕ} (h : p + 2 ≤ data.length) (hread : readNat data p 2 = .ok word) :
    (paddedWords (data.drop p)).sum = swap16 word + (paddedWords (data.drop (p + 2))).sum := by
  obtain ⟨hi, lo, hdrop, hread'⟩ := read_word h
  cases hread.symm.trans hread'
  rw [hdrop, paddedWords_cons_cons, List.sum_cons, swap16_word]

theorem sum_byte {b : ℕ} (h : p + 1 = data.length) (hread : readNat data p 1 = .ok b) :
    (paddedWords (data.drop p)).sum = swap16 b := by
  obtain ⟨b', hdrop, hread'⟩ := read_byte h
  cases hread.symm.trans hread'
  rw [hdrop, swap16_byte]
  simp [paddedWords]

end Reads

section Termination

/-- The loop is inside the buffer, and what it has still to do leads to the sum of all the words. -/
structure Words.At (data : Bytes) (s : Words) : Prop where
  position : s.p + s.sz = data.length
  summ_lt : s.summ < 2 ^ 32
  result : sumWords s.summ (data.drop s.p) = sumWords 0 data

theorem Words.at_start (data : Bytes) : (start data).At data where
  position := Nat.zero_add _
  summ_lt := by simp [start]
  result := rfl

theorem wordLoop_body {data : Bytes} {s : Words} {word : ℕ}
    (hread : readNat data s.p 2 = .ok word) :
    (wordLoop data).body s =
      .ok (⟨(s.summ + swap16 word) % 2 ^ 32, s.sz - 2, s.p + 2⟩, true) := by
  simp only [wordLoop, hread, Except.map]

theorem wordLoop_total (data : Bytes) :
    (wordLoop data).Total (Words.At data) (fun s => s.sz / 2) := by
  intro s h hcond
  have hsz : 2 ≤ s.sz := by simpa [wordLoop] using hcond
  have hpos := h.position
  have hword : s.p + 2 ≤ data.length := by omega
  obtain ⟨hi, lo, hdrop, hread⟩ := read_word hword
  refine ⟨_, true, wordLoop_body hread, ?_⟩
  intro _
  constructor
  · constructor
    · change s.p + 2 + (s.sz - 2) = data.length
      omega
    · exact Nat.mod_lt _ (by decide)
    · rw [← h.result, hdrop, sumWords]
  · change (s.sz - 2) / 2 < s.sz / 2
    omega

theorem lastByte_ok {data : Bytes} {s : Words} (h : s.At data) (hsz : s.sz < 2) :
    lastByte data s = .ok (sumWords 0 data) ∧ sumWords 0 data < 2 ^ 32 := by
  have hpos := h.position
  have hlt := h.summ_lt
  rw [← h.result, lastByte]
  by_cases hone : s.sz = 1
  · have hbyte : s.p + 1 = data.length := by omega
    obtain ⟨b, hdrop, hread⟩ := read_byte hbyte
    rw [if_pos hone, hread, hdrop, sumWords]
    exact ⟨rfl, Nat.mod_lt _ (by decide)⟩
  · rw [if_neg hone, List.drop_of_length_le (by omega), sumWords]
    exact ⟨rfl, hlt⟩

/-- How often the carry of a 32-bit number has to be folded, at most. -/
def folds (summ : ℕ) : ℕ := if summ < 65536 then 0 else if summ ≤ 131070 then 1 else 2

theorem foldLoop_total (n : ℕ) :
    foldLoop.Total (fun summ => summ < 2 ^ 32 ∧ foldCarry summ = n) folds := by
  rintro summ ⟨hlt, hfold⟩ hcond
  have hcarry : ¬ summ / 65536 = 0 := by simpa [foldLoop] using hcond
  have hmod : (summ % 65536 + summ / 65536) % 2 ^ 32 = summ % 65536 + summ / 65536 := by omega
  refine ⟨_, true, rfl, ?_⟩
  intro _
  rw [hmod]
  constructor
  · constructor
    · omega
    · rw [← hfold, foldCarry.eq_1 summ, if_neg hcarry]
  · unfold folds
    split_ifs <;> omega

/-- Neither loop is left by a `return`. -/
theorem wordLoop_leaves {data : Bytes} {s t : Words} {r : Bool}
    (h : (wordLoop data).Leaves s t r) : r = true := by
  apply h.eq_true
  intro s u hbody
  cases hread : readNat data s.p 2 with
  | error e => simp [wordLoop, hread, Except.map] at hbody
  | ok word =>
    rw [wordLoop_body hread] at hbody
    cases hbody

theorem foldLoop_leaves {s t : ℕ} {r : Bool} (h : foldLoop.Leaves s t r) : r = true := by
  apply h.eq_true
  intro s u hbody
  cases hbody

/-- The first loop ends with at most one byte left. -/
theorem wordLoop_run (data : Bytes) :
    ∃ s, (wordLoop data).run .outOfFuel (data.length / 2 + 1) (.start data) = .ok (s, true) ∧
      (wordLoop data).Leaves (.start data) s true := by
  obtain ⟨s, r, hrun, hleaves⟩ := (wordLoop_total data).run .outOfFuel (Words.at_start data)
    (Nat.lt_succ_self (data.length / 2))
  obtain rfl := wordLoop_leaves hleaves
  exact ⟨s, hrun, hleaves⟩

theorem wordLoop_exit {data : Bytes} {s : Words}
    (h : (wordLoop data).Leaves (.start data) s true) : s.At data ∧ s.sz < 2 := by
  obtain ⟨hat, hcond⟩ := (wordLoop_total data).exit (Words.at_start data) h
  exact ⟨hat, by simpa [wordLoop] using hcond⟩

/-- Two passes fold the carries of any 32-bit number. -/
theorem foldLoop_run {summ : ℕ} (h : summ < 2 ^ 32) :
    foldLoop.run .outOfFuel 3 summ = .ok (foldCarry summ, true) := by
  have hfolds : folds summ < 3 := by
    unfold folds
    split_ifs <;> omega
  obtain ⟨t, r, hrun, hleaves⟩ := (foldLoop_total (foldCarry summ)).run .outOfFuel ⟨h, rfl⟩ hfolds
  obtain rfl := foldLoop_leaves hleaves
  obtain ⟨⟨-, hfold⟩, hcond⟩ := (foldLoop_total (foldCarry summ)).exit ⟨h, rfl⟩ hleaves
  have hdone : t / 65536 = 0 := by simpa [foldLoop] using hcond
  rw [hrun, ← hfold, foldCarry, if_pos hdone]

/-- The loops terminate, read inside the buffer, and compute `calcCheckSumm`. -/
theorem calcCheckSummLoops_eq (data : Bytes) :
    calcCheckSummLoops data = .ok (calcCheckSumm data) := by
  obtain ⟨s, hrun, hleaves⟩ := wordLoop_run data
  obtain ⟨hat, hsz⟩ := wordLoop_exit hleaves
  obtain ⟨hlast, hlt⟩ := lastByte_ok hat hsz
  simp only [calcCheckSummLoops, hrun, hlast, foldLoop_run hlt, ok_bind, pure_ok, calcCheckSumm]

end Termination

/-- No addition into the 32-bit `summ` overflows: not in the first loop, not for the last byte and
not where the carries are folded. -/
structure NoOverflow (data : Bytes) : Prop where
  words : ∀ n s word, (wordLoop data).Heads (.start data) n s → 2 ≤ s.sz →
    readNat data s.p 2 = .ok word → s.summ + swap16 word < 2 ^ 32
  last : ∀ s b, (wordLoop data).Leaves (.start data) s true → s.sz = 1 →
    readNat data s.p 1 = .ok b → s.summ + swap16 b < 2 ^ 32
  fold : ∀ s summ n t, (wordLoop data).Leaves (.start data) s true →
    lastByte data s = .ok summ → foldLoop.Heads summ n t → t % 65536 + t / 65536 < 2 ^ 32

section Overflow

variable {data : Bytes}

/-- The words added so far and those that are left make up the whole sum. -/
def Words.Exact (data : Bytes) (s : Words) : Prop :=
  s.summ + (paddedWords (data.drop s.p)).sum = (paddedWords data).sum

theorem wordLoop_position {n : ℕ} {s : Words} (h : (wordLoop data).Heads (.start data) n s) :
    s.p + s.sz = data.length :=
  ((wordLoop_total data).heads (Words.at_start data) h).1.position

/-- The sum stays exact as long as no addition overflows. -/
theorem exact_of_words (hwords : ∀ n s word, (wordLoop data).Heads (.start data) n s →
      s.Exact data → 2 ≤ s.sz → readNat data s.p 2 = .ok word → s.summ + swap16 word < 2 ^ 32)
    {n : ℕ} {s : Words} (h : (wordLoop data).Heads (.start data) n s) : s.Exact data := by
  apply h.invariant (Words.Exact data)
  · simp [Words.Exact, Words.start]
  · intro n t u hheads hexact hcond hbody
    have hsz : 2 ≤ t.sz := by simpa [wordLoop] using hcond
    have hpos := wordLoop_position hheads
    have hword : t.p + 2 ≤ data.length := by omega
    obtain ⟨hi, lo, -, hread⟩ := read_word hword
    have hlt := hwords n t _ hheads hexact hsz hread
    rw [wordLoop_body hread] at hbody
    cases hbody
    have hsum := sum_word hword hread
    unfold Words.Exact at hexact ⊢
    simp only [Nat.mod_eq_of_lt hlt]
    omega

/-- Behind the loop a last byte completes the sum, or nothing is missing. -/
theorem Words.Exact.last {s : Words} (h : s.Exact data) (hat : s.At data) (hsz : s.sz < 2) :
    (s.sz = 1 ∧ ∃ b, readNat data s.p 1 = .ok b ∧ s.summ + swap16 b = (paddedWords data).sum) ∨
      s.summ = (paddedWords data).sum := by
  have hpos := hat.position
  unfold Exact at h
  by_cases hone : s.sz = 1
  · have hbyte : s.p + 1 = data.length := by omega
    obtain ⟨b, -, hread⟩ := read_byte hbyte
    rw [sum_byte hbyte hread] at h
    exact .inl ⟨hone, _, hread, h⟩
  · rw [List.drop_of_length_le (by omega)] at h
    exact .inr (by simpa using h)

theorem NoOverflow.sum_lt (h : NoOverflow data) : (paddedWords data).sum < 2 ^ 32 := by
  obtain ⟨s, -, hleaves⟩ := wordLoop_run data
  obtain ⟨hat, hsz⟩ := wordLoop_exit hleaves
  have hexact : s.Exact data := by
    cases hleaves with
    | done hheads _ => exact exact_of_words (fun n s word h₁ _ => h.words n s word h₁) hheads
  rcases hexact.last hat hsz with ⟨hone, b, hread, hsum⟩ | hsum
  · rw [← hsum]
    exact h.last s b hleaves hone hread
  · rw [← hsum]
    exact hat.summ_lt

section Fits

variable (hfits : (paddedWords data).sum < 2 ^ 32)
include hfits

theorem word_lt (n : ℕ) (s : Words) (word : ℕ) (hheads : (wordLoop data).Heads (.start data) n s)
    (hexact : s.Exact data) (hsz : 2 ≤ s.sz) (hread : readNat data s.p 2 = .ok word) :
    s.summ + swap16 word < 2 ^ 32 := by
  have hpos := wordLoop_position hheads
  have hsum := sum_word (by omega) hread
  unfold Words.Exact at hexact
  omega

theorem exact_of_fits {n : ℕ} {s : Words} (h : (wordLoop data).Heads (.start data) n s) :
    s.Exact data :=
  exact_of_words (word_lt hfits) h

theorem byte_lt {s : Words} {b : ℕ} (hleaves : (wordLoop data).Leaves (.start data) s true)
    (hone : s.sz = 1) (hread : readNat data s.p 1 = .ok b) : s.summ + swap16 b < 2 ^ 32 := by
  cases hleaves with
  | done hheads _ =>
    have hpos := wordLoop_position hheads
    have hsum := sum_byte (by omega) hread
    have hexact := exact_of_fits hfits hheads
    unfold Words.Exact at hexact
    omega

end Fits

/-- The carries of a 32-bit number never overflow it. -/
theorem fold_lt {s : Words} {summ n t : ℕ} (hleaves : (wordLoop data).Leaves (.start data) s true)
    (hlast : lastByte data s = .ok summ) (hheads : foldLoop.Heads summ n t) :
    t % 65536 + t / 65536 < 2 ^ 32 := by
  obtain ⟨hat, hsz⟩ := wordLoop_exit hleaves
  obtain ⟨hlast', hlt⟩ := lastByte_ok hat hsz
  cases hlast.symm.trans hlast'
  have ht := ((foldLoop_total _).heads ⟨hlt, rfl⟩ hheads).1.1
  omega

/-- No addition overflows if and only if all the words add up to a 32-bit number. -/
theorem noOverflow_iff : NoOverflow data ↔ (paddedWords data).sum < 2 ^ 32 := by
  constructor
  · exact NoOverflow.sum_lt
  · intro hfits
    constructor
    · intro n s word hheads
      exact word_lt hfits n s word hheads (exact_of_fits hfits hheads)
    · intro s b
      exact byte_lt hfits
    · intro s summ n t
      exact fold_lt

/-- A buffer of `0xFF` alone, with an odd byte at its end. -/
theorem paddedWords_replicate (n : ℕ) :
    (paddedWords (List.replicate (2 * n + 1) 0xFF)).sum = 65535 * n + 65280 := by
  induction n with
  | zero => rfl
  | succ n ih =>
    have hsucc : 2 * (n + 1) + 1 = 2 * n + 1 + 1 + 1 := by omega
    rw [hsucc, List.replicate_succ, List.replicate_succ, paddedWords_cons_cons, List.sum_cons, ih]
    have hff : (0xFF : UInt8).toNat = 255 := rfl
    rw [hff]
    omega

/-- The largest length for which this can be told without looking at the bytes. -/
theorem forall_noOverflow_iff (len : ℕ) :
    (∀ data : Bytes, data.length ≤ len → NoOverflow data) ↔ len ≤ 131074 := by
  constructor
  · intro h
    by_contra hlen
    have hlength : (List.replicate (2 * 65537 + 1) (0xFF : UInt8)).length = 2 * 65537 + 1 :=
      List.length_replicate
    have hno := noOverflow_iff.mp (h _ (hlength.trans_le (by omega)))
    rw [paddedWords_replicate] at hno
    omega
  · intro hlen data hdata
    exact noOverflow_iff.mpr (paddedWords_sum_lt (by omega))

end Overflow

/-- Up to `131074` bytes, `calcCheckSumm` terminates without an overflow, and what it stores on a
little-endian host is the complement of the one's-complement sum of the words, read in big-endian
order. -/
theorem calcCheckSumm_rfc1071 {data : Bytes} (h : data.length ≤ 131074) :
    calcCheckSummLoops data = .ok (calcCheckSumm data) ∧
      readBE (le 2 (calcCheckSumm data)) = 65535 - onesSum (paddedWords data) ∧
      NoOverflow data := by
  refine ⟨calcCheckSummLoops_eq data, ?_, noOverflow_iff.mpr (paddedWords_sum_lt h)⟩
  rw [readBE_le_two]
  exact swap16_calcCheckSumm h

/-- Two words with a carry, the second of them padded. -/
theorem calcCheckSumm_rfc1071_odd :
    calcCheckSummLoops [0x45, 0x00, 0xFF] = .ok (calcCheckSumm [0x45, 0x00, 0xFF]) ∧
      readBE (le 2 (calcCheckSumm [0x45, 0x00, 0xFF])) = 0xBBFE ∧
      NoOverflow [0x45, 0x00, 0xFF] :=
  calcCheckSumm_rfc1071 (show [0x45, 0x00, 0xFF].length ≤ 131074 by decide)

end IPPacket

end NetComponents.Pcap
