import NetComponents.Library.Bytes

/-!
# Percent-encoding

The encoder writes every byte that the policy reserves as `%` and two digits, and the decoder reads
two characters behind every `%` with a formatted extraction, whatever they are. The round trip holds
for all bytes (`encode_decodes`); `decode_exact_iff` says which texts are decoded exactly.
-/

namespace NetComponents.Curl

open Library

namespace Urilite

/-- The policies for spaces, `PLUS` and `NO_PLUS`. -/
inductive Space where
  | plus
  | noPlus
  deriving DecidableEq, Repr

/-- The policies for reserved characters. -/
inductive Reserved where
  | rfc2396
  | rfc3986
  deriving DecidableEq, Repr

/-- A character of a text, as a byte. -/
def ch (c : Char) : UInt8 := c.toUInt8

def Space.spaceEncoded : Space → Bytes
  | .plus => [ch '+']
  | .noPlus => [ch '%', ch '2', ch '0']

def Space.plusDecoded : Space → UInt8
  | .plus => ch ' '
  | .noPlus => ch '+'

def between (low high : Char) (c : UInt8) : Bool := ch low ≤ c && c ≤ ch high

def among (s : String) (c : UInt8) : Bool := (s.toList.map ch).contains c

/-- `match` -/
def Reserved.matches (policy : Reserved) (c : UInt8) : Bool :=
  !(between 'a' 'z' c || between 'A' 'Z' c || between '0' '9' c ||
    match policy with
    | .rfc2396 => among "-_.~!'()" c
    | .rfc3986 => among "-_.~" c)

/-- A digit as `std::hex` writes it. -/
def hexDigit (n : ℕ) : UInt8 :=
  if n < 10 then ch '0' + UInt8.ofNat n else ch 'a' + UInt8.ofNat (n - 10)

/-- What `encode` writes for one character. -/
def token (reserved : Reserved) (space : Space) (c : UInt8) : Bytes :=
  if !reserved.matches c then [c]
  else if c = ch ' ' then space.spaceEncoded
  else [ch '%', hexDigit (c.toNat / 16), hexDigit (c.toNat % 16)]

def encode (reserved : Reserved) (space : Space) (s : Bytes) : Bytes :=
  s.flatMap (token reserved space)

def isHex (c : UInt8) : Bool := between '0' '9' c || between 'a' 'f' c || between 'A' 'F' c

def hexValue (c : UInt8) : ℕ :=
  if between '0' '9' c then (c - ch '0').toNat
  else if between 'a' 'f' c then (c - ch 'a').toNat + 10
  else (c - ch 'A').toNat + 10

def isBlank (c : UInt8) : Bool := c = ch ' ' || 9 ≤ c && c ≤ 13

/-- The number that the digits at the front denote; without a digit the extraction fails, and
stores `0`. -/
def digits (s : Bytes) : ℕ := (s.takeWhile isHex).foldl (fun n c => 16 * n + hexValue c) 0

/-- `iss >> std::hex >> d` for a text of at most two characters: a prefix `0x` has no digit behind
it, and every number fits. Where nothing but blanks is left, nothing is stored. -/
def extract (s : Bytes) : Option ℤ :=
  match s.dropWhile isBlank with
  | [] => none
  | c :: t =>
    if c = ch '-' then some (-digits t)
    else if c = ch '+' then some (digits t)
    else some (digits (c :: t))

/-- One iteration of the decoder's loop: the text from there on, how many of its characters are
consumed, and the character that is written. -/
structure Step where
  text : Bytes
  taken : ℕ
  out : UInt8
  deriving DecidableEq, Repr

/-- The character written for a `%`, where `d` has not been initialised. -/
def unescape (junk : ℤ) (s : Bytes) : UInt8 := UInt8.ofInt ((extract (s.take 2)).getD junk)

/-- The decoder's loop, with the number of characters that the index has still to skip. The
parameter `junk` is what the variable `d` holds before it is assigned, at each place of the text. -/
def steps (space : Space) (junk : Bytes → ℤ) : ℕ → Bytes → List Step
  | _, [] => []
  | skip + 1, _ :: s => steps space junk skip s
  | 0, c :: s =>
    if c = ch '+' then ⟨c :: s, 1, space.plusDecoded⟩ :: steps space junk 0 s
    else if c = ch '%' then
      ⟨c :: s, 1 + min 2 s.length, unescape (junk s) s⟩ :: steps space junk 2 s
    else ⟨c :: s, 1, c⟩ :: steps space junk 0 s

def decode (space : Space) (junk : Bytes → ℤ) (s : Bytes) : Bytes :=
  (steps space junk 0 s).map Step.out

variable {reserved : Reserved} {space : Space} {junk : Bytes → ℤ}

theorem steps_skip (n : ℕ) (s : Bytes) :
    steps space junk n s = steps space junk 0 (s.drop n) := by
  induction n generalizing s with
  | zero => rfl
  | succ n ih =>
    cases s with
    | nil => rfl
    | cons c s => exact ih s

theorem steps_percent (s : Bytes) :
    steps space junk 0 (ch '%' :: s) =
      ⟨ch '%' :: s, 1 + min 2 s.length, unescape (junk s) s⟩ ::
        steps space junk 0 (s.drop 2) := by
  have hne : ch '%' ≠ ch '+' := by decide
  simp [steps, hne, steps_skip 2]

theorem steps_other {c : UInt8} (hc : c ≠ ch '%') (s : Bytes) :
    steps space junk 0 (c :: s) =
      ⟨c :: s, 1, if c = ch '+' then space.plusDecoded else c⟩ :: steps space junk 0 s := by
  by_cases hplus : c = ch '+' <;> simp [steps, hc, hplus]

theorem decode_percent (s : Bytes) :
    decode space junk (ch '%' :: s) =
      unescape (junk s) s :: decode space junk (s.drop 2) := by
  simp [decode, steps_percent]

theorem decode_other {c : UInt8} (hc : c ≠ ch '%') (s : Bytes) :
    decode space junk (c :: s) =
      (if c = ch '+' then space.plusDecoded else c) :: decode space junk s := by
  simp [decode, steps_other hc]

section Digits

/-- What holds of the 256 bytes holds of every byte. -/
theorem forall_byte {p : UInt8 → Prop} (h : ∀ n < 256, p (UInt8.ofNat n)) (c : UInt8) : p c := by
  have hc := h c.toNat c.toNat_lt
  rwa [UInt8.ofNat_toNat] at hc

theorem isHex_hexDigit {n : ℕ} (hn : n < 16) : isHex (hexDigit n) = true := by
  interval_cases n <;> decide

theorem hexValue_hexDigit {n : ℕ} (hn : n < 16) : hexValue (hexDigit n) = n := by
  interval_cases n <;> decide

/-- A digit is no blank, no sign, and begins no other escape. -/
theorem isHex_cases {c : UInt8} (hc : isHex c = true) :
    isBlank c = false ∧ c ≠ ch '-' ∧ c ≠ ch '+' ∧ c ≠ ch '%' :=
  forall_byte (p := fun c => isHex c = true →
    isBlank c = false ∧ c ≠ ch '-' ∧ c ≠ ch '+' ∧ c ≠ ch '%') (by decide +kernel) c hc

theorem extract_digits {h l : UInt8} (hh : isHex h = true) (hl : isHex l = true) :
    extract [h, l] = some ((16 * hexValue h + hexValue l : ℕ) : ℤ) := by
  obtain ⟨hblank, hminus, hplus, -⟩ := isHex_cases hh
  have hfront : [h, l].dropWhile isBlank = [h, l] := List.dropWhile_cons_of_neg (by simp [hblank])
  have hvalue : digits [h, l] = 16 * hexValue h + hexValue l := by simp [digits, hh, hl]
  simp only [extract, hfront, hminus, hplus, if_false, hvalue]

end Digits

/-- The byte that the two digits at the front of a text denote. -/
def escaped : Bytes → Option UInt8
  | h :: l :: _ =>
    if isHex h && isHex l then some (UInt8.ofNat (16 * hexValue h + hexValue l)) else none
  | _ => none

theorem escaped_eq_some {s : Bytes} {b : UInt8} (h : escaped s = some b) :
    ∃ hi lo t, s = hi :: lo :: t ∧ isHex hi = true ∧ isHex lo = true ∧
      b = UInt8.ofNat (16 * hexValue hi + hexValue lo) := by
  match s with
  | [] | [_] => cases h
  | hi :: lo :: t =>
    simp only [escaped, Option.ite_none_right_eq_some, Bool.and_eq_true, Option.some.injEq] at h
    exact ⟨hi, lo, t, rfl, h.1.1, h.1.2, h.2.symm⟩

theorem ofInt_natCast (n : ℕ) : UInt8.ofInt n = UInt8.ofNat n := by
  have hmod : ((n : ℤ) % 2 ^ 8).toNat = n % 2 ^ 8 := by omega
  rw [UInt8.ofInt, hmod]
  exact UInt8.toNat_inj.mp (by simp)

theorem unescape_of_escaped {s : Bytes} {b : UInt8} (h : escaped s = some b) (d : ℤ) :
    unescape d s = b := by
  obtain ⟨hi, lo, t, rfl, hhi, hlo, rfl⟩ := escaped_eq_some h
  simp only [unescape, List.take, extract_digits hhi hlo, Option.getD_some]
  exact ofInt_natCast _

section RoundTrip

/-- The texts of a policy: unreserved characters, `+` where it stands for a space, and escapes with
small digits. -/
inductive Encoded (reserved : Reserved) (space : Space) : Bytes → Prop where
  | nil : Encoded reserved space []
  | unreserved {c : UInt8} {s : Bytes} (hc : reserved.matches c = false)
      (hs : Encoded reserved space s) : Encoded reserved space (c :: s)
  | plus {s : Bytes} (hspace : space = .plus) (hs : Encoded reserved space s) :
      Encoded reserved space (ch '+' :: s)
  | escape {h l : UInt8} {s : Bytes} (hh : isHex h = true ∧ between 'A' 'F' h = false)
      (hl : isHex l = true ∧ between 'A' 'F' l = false) (hs : Encoded reserved space s) :
      Encoded reserved space (ch '%' :: h :: l :: s)

theorem small_hexDigit {n : ℕ} (hn : n < 16) :
    isHex (hexDigit n) = true ∧ between 'A' 'F' (hexDigit n) = false := by
  interval_cases n <;> decide

/-- A character keeps its place, or a space its policy's text, or there is an escape. -/
theorem token_cases (reserved : Reserved) (space : Space) (c : UInt8) :
    (reserved.matches c = false ∧ c ≠ ch '+' ∧ c ≠ ch '%' ∧ token reserved space c = [c]) ∨
    (c = ch ' ' ∧ space = .plus ∧ token reserved space c = [ch '+']) ∨
    token reserved space c = [ch '%', hexDigit (c.toNat / 16), hexDigit (c.toNat % 16)] := by
  cases hc : reserved.matches c with
  | false =>
    have hplus : reserved.matches (ch '+') = true := by cases reserved <;> decide
    have hpercent : reserved.matches (ch '%') = true := by cases reserved <;> decide
    refine Or.inl ⟨rfl, ?_, ?_, by simp [token, hc]⟩
    · rintro rfl
      simp [hplus] at hc
    · rintro rfl
      simp [hpercent] at hc
  | true =>
    by_cases hspace : c = ch ' '
    · cases space with
      | plus =>
        subst hspace
        exact Or.inr (Or.inl ⟨rfl, rfl, by simp [token, hc, Space.spaceEncoded]⟩)
      | noPlus =>
        refine Or.inr (Or.inr ?_)
        subst hspace
        simp only [token, hc, Bool.not_true, Bool.false_eq_true, if_false, if_true]
        decide
    · exact Or.inr (Or.inr (by simp [token, hc, hspace]))

theorem escaped_byte (c : UInt8) (s : Bytes) :
    escaped (hexDigit (c.toNat / 16) :: hexDigit (c.toNat % 16) :: s) = some c := by
  have hc := c.toNat_lt
  have hhi : c.toNat / 16 < 16 := by omega
  have hlo : c.toNat % 16 < 16 := by omega
  have hvalue : 16 * (c.toNat / 16) + c.toNat % 16 = c.toNat := by omega
  simp only [escaped, isHex_hexDigit hhi, isHex_hexDigit hlo, hexValue_hexDigit hhi,
    hexValue_hexDigit hlo, hvalue, Bool.and_self, if_true, UInt8.ofNat_toNat]

theorem decode_token (c : UInt8) (s : Bytes) :
    decode space junk (token reserved space c ++ s) = c :: decode space junk s := by
  rcases token_cases reserved space c with
    ⟨-, hplus, hpercent, htoken⟩ | ⟨rfl, rfl, htoken⟩ | htoken
  · rw [htoken]
    rw [List.singleton_append, decode_other hpercent, if_neg hplus]
  · rw [htoken]
    exact decode_other (by decide) s
  · rw [htoken]
    simp only [List.cons_append, List.nil_append, decode_percent]
    rw [unescape_of_escaped (escaped_byte c s)]
    rfl

theorem encoded_token {s : Bytes} (c : UInt8) (hs : Encoded reserved space s) :
    Encoded reserved space (token reserved space c ++ s) := by
  rcases token_cases reserved space c with ⟨hc, -, -, htoken⟩ | ⟨rfl, hspace, htoken⟩ | htoken
  · rw [htoken]
    exact .unreserved hc hs
  · rw [htoken]
    exact .plus hspace hs
  · have hc := c.toNat_lt
    rw [htoken]
    exact .escape (small_hexDigit (by omega)) (small_hexDigit (by omega)) hs

/-- Every byte string comes back under every policy, and its encoding is a text of the policy. -/
theorem encode_decodes (reserved : Reserved) (space : Space) (junk : Bytes → ℤ) (s : Bytes) :
    decode space junk (encode reserved space s) = s ∧
      Encoded reserved space (encode reserved space s) := by
  induction s with
  | nil => exact ⟨rfl, .nil⟩
  | cons c s ih =>
    have hencode : encode reserved space (c :: s) =
        token reserved space c ++ encode reserved space s := rfl
    rw [hencode, decode_token, ih.1]
    exact ⟨rfl, encoded_token c ih.2⟩

end RoundTrip

section Escapes

/-- A `%` is consumed together with two digits, for the byte that they denote, or by itself. -/
def Step.Exact (x : Step) : Prop :=
  ∀ s, x.text = ch '%' :: s →
    match escaped s with
    | some b => x.taken = 3 ∧ x.out = b
    | none => x.taken = 1

/-- Every step is exact, and nothing uninitialised is seen in what is written. -/
def DecodedExactly (space : Space) (s : Bytes) : Prop :=
  (∀ junk, ∀ x ∈ steps space junk 0 s, x.Exact) ∧
    ∀ junk junk', decode space junk s = decode space junk' s

/-- Every `%` of the text stands before two digits. -/
def Escapes (s : Bytes) : Prop := ∀ t, ch '%' :: t <:+ s → (escaped t).isSome

theorem escapes_cons {c : UInt8} (hc : c ≠ ch '%') (s : Bytes) : Escapes (c :: s) ↔ Escapes s := by
  simp [Escapes, List.suffix_cons_iff, Ne.symm hc]

theorem escapes_percent (s : Bytes) :
    Escapes (ch '%' :: s) ↔ (escaped s).isSome ∧ Escapes s := by
  simp [Escapes, List.suffix_cons_iff, or_imp, forall_and]

/-- The digits of an escape begin no other one. -/
theorem escapes_drop {s : Bytes} {b : UInt8} (h : escaped s = some b) :
    Escapes s ↔ Escapes (s.drop 2) := by
  obtain ⟨hi, lo, t, rfl, hhi, hlo, -⟩ := escaped_eq_some h
  rw [escapes_cons (isHex_cases hhi).2.2.2, escapes_cons (isHex_cases hlo).2.2.2]
  rfl

theorem decodedExactly_cons {c : UInt8} (hc : c ≠ ch '%') (s : Bytes) :
    DecodedExactly space (c :: s) ↔ DecodedExactly space s := by
  have hstep (out : UInt8) : (⟨c :: s, 1, out⟩ : Step).Exact := by
    intro t ht
    cases ht
    exact absurd rfl hc
  simp [DecodedExactly, decode, steps_other hc, hstep]

/-- Without two digits, a character is lost, or at the end of the text the variable is read that has
not been assigned. -/
theorem decodedExactly_percent (s : Bytes) :
    DecodedExactly space (ch '%' :: s) ↔ (escaped s).isSome ∧ DecodedExactly space (s.drop 2) := by
  constructor
  · rintro ⟨hsteps, hjunk⟩
    have hfront := hsteps (fun _ => 0) _ (by rw [steps_percent]; exact List.mem_cons_self) s rfl
    cases hs : escaped s with
    | none =>
      -- nothing is skipped only at the end of the text, where `d` is not assigned
      have htaken : 1 + min 2 s.length = 1 := by simpa [hs] using hfront
      have hempty : s = [] := List.length_eq_zero_iff.mp (by omega)
      subst hempty
      have hout := hjunk (fun _ => 0) (fun _ => 1)
      rw [decode_percent, decode_percent] at hout
      exact absurd (List.cons.inj hout).1 (by decide)
    | some b =>
      refine ⟨rfl, fun junk x hx => hsteps junk x ?_, fun junk junk' => ?_⟩
      · rw [steps_percent]
        exact List.mem_cons_of_mem _ hx
      · have hout := hjunk junk junk'
        rw [decode_percent, decode_percent] at hout
        exact (List.cons.inj hout).2
  · rintro ⟨hs, hsteps, hjunk⟩
    obtain ⟨b, hb⟩ := Option.isSome_iff_exists.mp hs
    obtain ⟨hi, lo, t, rfl, -⟩ := escaped_eq_some hb
    constructor
    · intro junk x hx
      rw [steps_percent, List.mem_cons] at hx
      rcases hx with rfl | hx
      · intro u hu
        cases hu
        simp [hb, unescape_of_escaped hb]
      · exact hsteps junk x hx
    · intro junk junk'
      rw [decode_percent, decode_percent, unescape_of_escaped hb, unescape_of_escaped hb,
        hjunk junk junk']

/-- A text is decoded exactly if every `%` in it begins an escape, and only then. -/
theorem decode_exact_iff (space : Space) (s : Bytes) : DecodedExactly space s ↔ Escapes s := by
  induction hlength : s.length using Nat.strong_induction_on generalizing s with
  | _ n ih =>
    cases s with
    | nil => simp [DecodedExactly, Escapes, decode, steps]
    | cons c s =>
      rw [List.length_cons] at hlength
      by_cases hc : c = ch '%'
      · subst hc
        have hdrop := ih _ (by rw [List.length_drop]; omega) (s.drop 2) rfl
        rw [decodedExactly_percent, escapes_percent, hdrop]
        refine and_congr_right fun hs => ?_
        obtain ⟨b, hb⟩ := Option.isSome_iff_exists.mp hs
        exact (escapes_drop hb).symm
      · rw [decodedExactly_cons hc, escapes_cons hc]
        exact ih _ (by omega) s rfl

/-- Of `%zz`, two characters are consumed that are no digits. -/
theorem lost_characters : ¬ DecodedExactly .noPlus [ch '%', ch 'z', ch 'z'] := by
  rintro ⟨hsteps, -⟩
  have hstep := hsteps (fun _ => 0) ⟨[ch '%', ch 'z', ch 'z'], 3, 0⟩ (by decide) _ rfl
  have hnone : escaped [ch 'z', ch 'z'] = none := by decide
  simp [hnone] at hstep

end Escapes

end Urilite

end NetComponents.Curl
