import NetComponents.Library.Bytes

/-!
# Computations that may stop early

A modelled call either returns or stops: with an exception, because it touched
memory outside the object it was given, because a difference of sizes would be negative, or because
a loop used up its budget. Every access goes through `read`, so a result `.ok` also says that no
access was out of bounds.
-/

namespace NetComponents.Library

/-- Why a call ends without returning. -/
inductive Stop where
  | exception (what : String)
  | outOfBounds
  | underflow
  | outOfFuel
  deriving DecidableEq, Repr

abbrev Exec := Except Stop

@[simp] theorem ok_bind {α β : Type} (a : α) (f : α → Exec β) :
    ((Except.ok a : Exec α) >>= f) = f a := rfl

@[simp] theorem pure_ok {α : Type} (a : α) : (pure a : Exec α) = .ok a := rfl

theorem bind_ok_iff {α β : Type} {x : Exec α} {f : α → Exec β} {b : β} :
    x >>= f = .ok b ↔ ∃ a, x = .ok a ∧ f a = .ok b := by
  cases x with
  | error e => simp [bind, Except.bind]
  | ok a => simp

/-- A computation that touches nothing it should not, and has no negative difference of sizes: it
returns or throws. -/
def Contained {α : Type*} (x : Exec α) : Prop :=
  (∃ a, x = .ok a) ∨ ∃ what, x = .error (.exception what)

theorem contained_ok {α : Type*} (a : α) : Contained (.ok a) := .inl ⟨a, rfl⟩

theorem contained_throw {α : Type*} (what : String) :
    Contained (.error (.exception what) : Exec α) := .inr ⟨what, rfl⟩

theorem Contained.bind {α β : Type} {x : Exec α} {f : α → Exec β} (hx : Contained x)
    (hf : ∀ a, x = .ok a → Contained (f a)) : Contained (x >>= f) := by
  rcases hx with ⟨a, rfl⟩ | ⟨what, rfl⟩
  · exact hf a rfl
  · exact contained_throw what

/-- Access to the `len` bytes of `bs` from offset `off` on. -/
def read (bs : Bytes) (off len : ℕ) : Exec Bytes :=
  if off + len ≤ bs.length then .ok (slice bs off len) else .error .outOfBounds

/-- Access to an unsigned integer of `width` bytes. -/
def readNat (bs : Bytes) (off width : ℕ) : Exec ℕ :=
  (read bs off width).map readLE

theorem read_ok {bs : Bytes} {off len : ℕ} (h : off + len ≤ bs.length) :
    read bs off len = .ok (slice bs off len) := if_pos h

theorem readNat_ok {bs : Bytes} {off width : ℕ} (h : off + width ≤ bs.length) :
    readNat bs off width = .ok (readLE (slice bs off width)) := by
  simp [readNat, read_ok h, Except.map]

/-- An access inside a prefix does not see what follows it. -/
theorem read_append_left {a : Bytes} (b : Bytes) {off len : ℕ} (h : off + len ≤ a.length) :
    read (a ++ b) off len = read a off len := by
  have h' : off + len ≤ (a ++ b).length := by simp only [List.length_append]; omega
  rw [read_ok h, read_ok h', slice_append_left b h]

theorem readNat_append_left {a : Bytes} (b : Bytes) {off width : ℕ}
    (h : off + width ≤ a.length) : readNat (a ++ b) off width = readNat a off width := by
  rw [readNat, readNat, read_append_left b h]

theorem read_append_right (a b : Bytes) (off len : ℕ) :
    read (a ++ b) (a.length + off) len = read b off len := by
  unfold read
  rw [slice_append_right, List.length_append, Nat.add_assoc]
  simp only [Nat.add_le_add_iff_left]

/-- An access inside the middle part sees neither what precedes nor what follows it. -/
theorem read_inside {a b : Bytes} (c : Bytes) {off len : ℕ} (h : off + len ≤ b.length) :
    read (a ++ (b ++ c)) (a.length + off) len = read b off len := by
  rw [read_append_right, read_append_left c h]

theorem readNat_inside {a b : Bytes} (c : Bytes) {off width : ℕ}
    (h : off + width ≤ b.length) :
    readNat (a ++ (b ++ c)) (a.length + off) width = readNat b off width := by
  rw [readNat, readNat, read_inside c h]

/-- The same at the start of the middle part. -/
theorem readNat_start {a b : Bytes} (c : Bytes) {width : ℕ} (h : width ≤ b.length) :
    readNat (a ++ (b ++ c)) a.length width = readNat b 0 width := by
  have hinside : 0 + width ≤ b.length := by omega
  simpa using readNat_inside (a := a) c hinside

/-- Access to a field that was written there. -/
theorem read_field {bs a b c : Bytes} {off len : ℕ} (h : bs = a ++ (b ++ c))
    (ha : a.length = off) (hb : b.length = len) : read bs off len = .ok b := by
  subst h ha hb
  rw [← Nat.add_zero a.length, read_inside c (by omega), read_ok (by omega)]
  simp [slice]

theorem readNat_field {bs a c : Bytes} {off width n : ℕ} (h : bs = a ++ (le width n ++ c))
    (ha : a.length = off) (hn : n < 256 ^ width) : readNat bs off width = .ok n := by
  rw [readNat, read_field h ha (length_le width n), Except.map, readLE_le_of_lt hn]

/-- Copy `src` over the bytes of `dst` from offset `off` on. -/
def overwrite (dst : Bytes) (off : ℕ) (src : Bytes) : Exec Bytes :=
  if off + src.length ≤ dst.length then
    .ok (dst.take off ++ src ++ dst.drop (off + src.length))
  else .error .outOfBounds

theorem overwrite_ok {dst src : Bytes} {off : ℕ} (h : off + src.length ≤ dst.length) :
    overwrite dst off src = .ok (dst.take off ++ src ++ dst.drop (off + src.length)) :=
  if_pos h

/-- The difference of two sizes. -/
def minus (a b : ℕ) : Exec ℕ := if b ≤ a then .ok (a - b) else .error .underflow

theorem minus_ok {a b : ℕ} (h : b ≤ a) : minus a b = .ok (a - b) := if_pos h

/-- Unsigned 64-bit subtraction. -/
def subSize (a b : ℕ) : ℕ := (a + 2 ^ 64 - b) % 2 ^ 64

theorem subSize_of_le {a b : ℕ} (hb : b ≤ a) (ha : a < 2 ^ 64) : subSize a b = a - b := by
  unfold subSize
  omega

end NetComponents.Library
